import LintRunner.Proofs.KnownWords
import LintRunner.Proofs.Rounds

/-!
# Reading the command line comes to an end

A word that names no option is kept and reading goes on behind it. If a value was written with the
name, after an equals sign, the value is a word of its own then, and there are as many words left as
before. So it is not the number of words that goes down but the text in them, and it goes down with
every word that is read, however reading the word ends. Only a callback of a plugin may undo this, by
putting words back.
-/

namespace LintRunner.Options.CommandLine

open Stateful

variable {c : CommandLine} {o : CommandOption} {st st' : Reading}

/-- The next word is read. -/
def wordRound (c : CommandLine) (st : Reading) : Reading ⊕ (Except Halt Unit × Reading) :=
  match st.left with
  | [] => .inr (.ok (), st)
  | word :: rest =>
    if word = "--" then .inr (.ok (), { st with left := rest })
    else if isArgument word then .inl { st with left := rest, found := st.found ++ [word] }
    else
      match (c.readDashed word).run { st with left := rest } with
      | (.ok _, st') => .inl st'
      | (.error h, st') => .inr (.error h, st')

/-- An option of a plugin whose callback puts the option's own word back. -/
def repeating : CommandLine where
  options := [{ shorts := ["-x"], action := .callback, handler := some (.plugin 0) }]
  callbacks := [fun opt _ => modify fun st => { st with left := opt :: st.left }]

theorem wordRound_repeating (values : Settings) :
    repeating.wordRound (repeating.start ["-x"] values) = .inl (repeating.start ["-x"] values) := by
  rfl

/-- A callback that puts words back may keep reading from ever coming to an end. -/
theorem repeating_never_ends (values : Settings) (n : Nat) (r : Except Halt Unit × Reading) :
    ¬ EndsAfter repeating.wordRound n (repeating.start ["-x"] values) r :=
  not_endsAfter_of_fixed (wordRound_repeating values) n r

end LintRunner.Options.CommandLine
