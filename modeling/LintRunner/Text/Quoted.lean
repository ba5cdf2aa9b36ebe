import LintRunner.Text.Basic
import LintRunner.Text.Printable

/-!
# Quoted texts

Two quoting rules. A literal is wrapped in single quotes, or in double quotes when the text holds a
single quote and no double quote, and shows unprintable characters as escapes. A JSON string is
wrapped in double quotes and escapes the controls, and on request everything beyond ASCII.
-/

namespace LintRunner.Text

def literalQuote (cs : List Char) : Char :=
  if cs.contains '\'' && !cs.contains '"' then '"' else '\''

def literalChar (quote c : Char) : List Char :=
  let n := c.toNat
  if c = quote || c = '\\' then ['\\', c]
  else if c = '\t' then ['\\', 't']
  else if c = '\n' then ['\\', 'n']
  else if c = '\r' then ['\\', 'r']
  else if n < 0x20 || n = 0x7f then '\\' :: 'x' :: (hexPadded 2 n).toList
  else if n < 0x7f then [c]
  else if isPrintable c then [c]
  else if n < 0x100 then '\\' :: 'x' :: (hexPadded 2 n).toList
  else if n < 0x10000 then '\\' :: 'u' :: (hexPadded 4 n).toList
  else '\\' :: 'U' :: (hexPadded 8 n).toList

def literal (s : String) : String :=
  let quote := literalQuote s.toList
  String.ofList (quote :: s.toList.flatMap (literalChar quote) ++ [quote])

def asciiOnly (s : String) : String :=
  let escape (c : Char) : List Char :=
    let n := c.toNat
    if n < 0x80 then [c]
    else if n < 0x100 then '\\' :: 'x' :: (hexPadded 2 n).toList
    else if n < 0x10000 then '\\' :: 'u' :: (hexPadded 4 n).toList
    else '\\' :: 'U' :: (hexPadded 8 n).toList
  String.ofList (s.toList.flatMap escape)

def jsonChar (ascii : Bool) (c : Char) : List Char :=
  let n := c.toNat
  let unit (u : Nat) : List Char := '\\' :: 'u' :: (hexPadded 4 u).toList
  if c = '"' then ['\\', '"']
  else if c = '\\' then ['\\', '\\']
  else if c = '\n' then ['\\', 'n']
  else if c = '\r' then ['\\', 'r']
  else if c = '\t' then ['\\', 't']
  else if n = 0x0c then ['\\', 'f']
  else if n = 0x08 then ['\\', 'b']
  else if n < 0x20 then unit n
  else if !ascii || n < 0x7f then [c]
  else if n < 0x10000 then unit n
  else
    let m := n - 0x10000
    unit (0xd800 + m / 0x400) ++ unit (0xdc00 + m % 0x400)

def jsonString (ascii : Bool) (s : String) : String :=
  String.ofList ('"' :: s.toList.flatMap (jsonChar ascii) ++ ['"'])

end LintRunner.Text
