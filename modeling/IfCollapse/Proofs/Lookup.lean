import Mathlib.Data.List.Nodup

/-! Entries looked up by their keys. If no key is there twice, what is found does not depend on the order
of the entries. -/

namespace IfCollapse

variable {κ α : Type} [BEq κ] [LawfulBEq κ] {entries more : List (κ × α)} {key : κ} {a : α}

theorem lookup_eq_none_iff_keys : entries.lookup key = none ↔ key ∉ entries.map (·.1) := by
  rw [List.lookup_eq_none_iff, List.mem_map]
  constructor
  · intro h hkey
    obtain ⟨entry, hentry, heq⟩ := hkey
    simpa [heq] using h entry hentry
  · intro h entry hentry
    have hne : key ≠ entry.1 := fun heq => h ⟨entry, hentry, heq.symm⟩
    simpa using hne

theorem isSome_lookup_iff_keys : (entries.lookup key).isSome ↔ key ∈ entries.map (·.1) := by
  rw [← not_iff_not, Option.not_isSome_iff_eq_none, lookup_eq_none_iff_keys]

theorem mem_of_lookup_eq_some (h : entries.lookup key = some a) : (key, a) ∈ entries := by
  obtain ⟨before, behind, heq, _⟩ := List.lookup_eq_some_iff.1 h
  rw [heq]
  simp

theorem lookup_eq_some_iff_mem (h : (entries.map (·.1)).Nodup) :
    entries.lookup key = some a ↔ (key, a) ∈ entries := by
  constructor
  · exact mem_of_lookup_eq_some
  · intro hmem
    have hkey : key ∈ entries.map (·.1) := List.mem_map_of_mem hmem
    obtain ⟨b, hb⟩ := Option.isSome_iff_exists.1 (isSome_lookup_iff_keys.2 hkey)
    have hpair := List.inj_on_of_nodup_map h hmem (mem_of_lookup_eq_some hb) rfl
    rw [hb, (Prod.mk.inj hpair).2]

theorem lookup_eq_of_perm (h : (entries.map (·.1)).Nodup) (hperm : more.Perm entries) :
    more.lookup key = entries.lookup key := by
  have hmore : (more.map (·.1)).Nodup := (hperm.map _).nodup_iff.2 h
  refine Option.ext fun a => ?_
  rw [lookup_eq_some_iff_mem hmore, lookup_eq_some_iff_mem h, hperm.mem_iff]

end IfCollapse
