import TapeMachine.Text.WhiteSpace

/-!
# Parsing expression grammars

Recognizers that are tried from left to right and take what they can: a choice once made is never
taken back, and a star goes on as long as its body matches. `Peg.Parses` says what an expression
does with a text, success and failure alike, and `Peg.Parses.unique` that it can do only one thing.
-/

namespace TapeMachine.Text

/-- Parsing expressions over characters. -/
inductive Peg where
  /-- One character with a property. -/
  | one (p : Char → Bool)
  /-- The empty text at the start of the whole text. -/
  | start
  /-- The empty text at the end of the whole text. -/
  | finish
  | seq (a b : Peg)
  | opt (a : Peg)
  | star (a : Peg)
  /-- The empty text where `a` fails. -/
  | not (a : Peg)
  /-- What `a` matches, reported as one token. -/
  | token (a : Peg)

namespace Peg

/-- One `a` or more, as many as there are. -/
def plus (a : Peg) : Peg :=
  .seq a (.star a)

/-- What an expression does with a text: it fails, or it reports tokens and leaves a rest. -/
abbrev Outcome := Option (List (List Char) × List Char)

/-- `Parses whole e text o`: in the text `whole`, of which `text` is still to be read, `e` has the
outcome `o`. -/
inductive Parses (whole : List Char) : Peg → List Char → Outcome → Prop where
  | one {p c rest} : p c = true → Parses whole (.one p) (c :: rest) (some ([], rest))
  | one_other {p c rest} : p c = false → Parses whole (.one p) (c :: rest) none
  | one_nil {p} : Parses whole (.one p) [] none
  | start : Parses whole .start whole (some ([], whole))
  | start_later {text} : text ≠ whole → Parses whole .start text none
  | finish : Parses whole .finish [] (some ([], []))
  | finish_early {c rest} : Parses whole .finish (c :: rest) none
  | seq {a b text ts mid us rest} : Parses whole a text (some (ts, mid)) →
      Parses whole b mid (some (us, rest)) → Parses whole (.seq a b) text (some (ts ++ us, rest))
  | seq_first {a b text} : Parses whole a text none → Parses whole (.seq a b) text none
  | seq_second {a b text ts mid} : Parses whole a text (some (ts, mid)) →
      Parses whole b mid none → Parses whole (.seq a b) text none
  | opt {a text result} : Parses whole a text (some result) →
      Parses whole (.opt a) text (some result)
  | opt_skip {a text} : Parses whole a text none → Parses whole (.opt a) text (some ([], text))
  | star_more {a text ts mid us rest} : Parses whole a text (some (ts, mid)) →
      Parses whole (.star a) mid (some (us, rest)) →
      Parses whole (.star a) text (some (ts ++ us, rest))
  | star_done {a text} : Parses whole a text none → Parses whole (.star a) text (some ([], text))
  | not {a text} : Parses whole a text none → Parses whole (.not a) text (some ([], text))
  | not_fail {a text result} : Parses whole a text (some result) → Parses whole (.not a) text none
  | token {a text taken ts rest} : text = taken ++ rest → Parses whole a text (some (ts, rest)) →
      Parses whole (.token a) text (some ([taken], rest))
  | token_fail {a text} : Parses whole a text none → Parses whole (.token a) text none

variable {whole text : List Char}

/-- An expression has at most one outcome on a text. -/
theorem Parses.unique {e : Peg} {o o' : Outcome} (h : Parses whole e text o)
    (h' : Parses whole e text o') : o = o' := by
  induction h generalizing o' with
  | one hc =>
    cases h' with
    | one => rfl
    | one_other hc' => rw [hc] at hc'; cases hc'
  | one_other hc =>
    cases h' with
    | one hc' => rw [hc] at hc'; cases hc'
    | one_other => rfl
  | one_nil => cases h'; rfl
  | start =>
    cases h' with
    | start => rfl
    | start_later hne => exact absurd rfl hne
  | start_later hne =>
    cases h' with
    | start => exact absurd rfl hne
    | start_later => rfl
  | finish => cases h'; rfl
  | finish_early => cases h'; rfl
  | seq _ _ iha ihb =>
    cases h' with
    | seq ha' hb' => cases iha ha'; cases ihb hb'; rfl
    | seq_first ha' => cases iha ha'
    | seq_second ha' hb' => cases iha ha'; cases ihb hb'
  | seq_first _ iha =>
    cases h' with
    | seq ha' => cases iha ha'
    | seq_first => rfl
    | seq_second => rfl
  | seq_second _ _ iha ihb =>
    cases h' with
    | seq ha' hb' => cases iha ha'; cases ihb hb'
    | seq_first => rfl
    | seq_second => rfl
  | opt _ iha =>
    cases h' with
    | opt ha' => exact iha ha'
    | opt_skip ha' => cases iha ha'
  | opt_skip _ iha =>
    cases h' with
    | opt ha' => cases iha ha'
    | opt_skip => rfl
  | star_more _ _ iha ihs =>
    cases h' with
    | star_more ha' hs' => cases iha ha'; cases ihs hs'; rfl
    | star_done ha' => cases iha ha'
  | star_done _ iha =>
    cases h' with
    | star_more ha' => cases iha ha'
    | star_done => rfl
  | not _ iha =>
    cases h' with
    | not => rfl
    | not_fail ha' => cases iha ha'
  | not_fail _ iha =>
    cases h' with
    | not ha' => cases iha ha'
    | not_fail => rfl
  | token htext _ iha =>
    cases h' with
    | token htext' ha' =>
      cases iha ha'
      rw [List.append_cancel_right (htext.symm.trans htext')]
    | token_fail ha' => cases iha ha'
  | token_fail _ iha =>
    cases h' with
    | token _ ha' => cases iha ha'
    | token_fail => rfl

end Peg

end TapeMachine.Text
