/-!
# Lines

Two ways to cut a text into lines. The narrow one knows only the line feed; the wide one also ends
a line at a carriage return, a vertical tab, a form feed, the information separators and the
Unicode line ends. Unifying newlines turns carriage returns into line feeds first.
-/

namespace LintRunner.Text

def consToFirst (c : Char) : List (List Char) → List (List Char)
  | [] => [[c]]
  | l :: ls => (c :: l) :: ls

/-- Cuts after every line feed; each line keeps its line feed, and no line is empty. -/
def linesAfterFeed : List Char → List (List Char)
  | [] => []
  | '\n' :: cs => ['\n'] :: linesAfterFeed cs
  | c :: cs => consToFirst c (linesAfterFeed cs)

/-- Turns a carriage return, with a line feed after it if there is one, into a line feed. -/
def unifyNewlines : List Char → List Char
  | [] => []
  | '\r' :: '\n' :: cs => '\n' :: unifyNewlines cs
  | '\r' :: cs => '\n' :: unifyNewlines cs
  | c :: cs => c :: unifyNewlines cs

def isLineEnd (c : Char) : Bool :=
  let n := c.toNat
  (0x0a ≤ n && n ≤ 0x0d) || (0x1c ≤ n && n ≤ 0x1e) || n == 0x85 || n == 0x2028 || n == 0x2029

/-- Cuts after every line end in the wide sense; a carriage return and a line feed after it are one
end. Each line keeps its end. -/
def wideLines : List Char → List (List Char)
  | [] => []
  | '\r' :: '\n' :: cs => ['\r', '\n'] :: wideLines cs
  | c :: cs => if isLineEnd c then [c] :: wideLines cs else consToFirst c (wideLines cs)

def dropLineEnd (line : List Char) : List Char :=
  match line.reverse with
  | '\n' :: '\r' :: rest => rest.reverse
  | c :: rest => if isLineEnd c then rest.reverse else line
  | [] => []

theorem flatten_consToFirst (c : Char) (ls : List (List Char)) :
    (consToFirst c ls).flatten = c :: ls.flatten := by
  cases ls <;> rfl

theorem flatten_linesAfterFeed (cs : List Char) : (linesAfterFeed cs).flatten = cs := by
  fun_induction linesAfterFeed cs with
  | case1 => rfl
  | case2 cs ih => simp [ih]
  | case3 c cs h ih => simp [flatten_consToFirst, ih]

theorem flatten_wideLines (cs : List Char) : (wideLines cs).flatten = cs := by
  fun_induction wideLines cs with
  | case1 => rfl
  | case2 cs ih => simp [ih]
  | case3 c cs h hc ih => simp [ih]
  | case4 c cs h hc ih => simp [flatten_consToFirst, ih]

end LintRunner.Text
