import IfCollapse.Text.Visible

/-!
Texts between double quotes, with escapes for what would not be seen.
-/

namespace IfCollapse

def hexDigits (n : Nat) : List Char :=
  Nat.toDigits 16 n

def quoteChar (c : Char) : List Char :=
  if c = '"' then ['\\', '"']
  else if c = '\\' then ['\\', '\\']
  else if c = '\n' then ['\\', 'n']
  else if c = '\r' then ['\\', 'r']
  else if c = '\t' then ['\\', 't']
  else if c.toNat = 0 then ['\\', '0']
  else if isVisible c then [c]
  else '\\' :: 'u' :: Char.ofNat 0x7b :: hexDigits c.toNat ++ [Char.ofNat 0x7d]

def quote (text : List Char) : List Char :=
  '"' :: text.flatMap quoteChar ++ ['"']

end IfCollapse
