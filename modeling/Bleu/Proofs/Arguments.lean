import Bleu.Command.Arguments
import Bleu.Proofs.Outcomes

/-!
# What arguments do to a form

A property of forms that every option keeps holds of whatever arguments fill in (`readArguments_keeps`). An option may
act long after it has come, when the next one comes or the arguments end; so what stays true of a form being filled in
(`Filling.Keeping`) is about the option that waits as well.
-/
namespace Bleu.Command
open Outcomes
variable {σ : Type} {P : σ → Prop}

/-- The changes that an option makes keep a property of forms. -/
def Role.Keeps (P : σ → Prop) : Role σ → Prop
  | flag set | counted set => ∀ form, P form → P (set form)
  | value set | values set => ∀ word form form', set word form = .ok form' → P form → P form'
  | help => True

namespace Filling
variable {switches : List (Switch σ)} {f g : Filling σ} {s : Switch σ}

/-- The form has a property, and the option that waits keeps it. -/
structure Keeping (P : σ → Prop) (f : Filling σ) : Prop where
  form : P f.form
  waiting : ∀ s word?, f.waiting = some (s, word?) → s.role.Keeps P

theorem setValue_eq_ok_iff {set : String → σ → Except Refusal σ} {word : String} {form form' : σ} :
    setValue s set word form = .ok form' ↔ set word form = .ok form' := by
  unfold setValue
  cases set word form with
  | ok form => simp
  | error refusal => cases refusal with
    | unlisted => simp
    | unreadable => simp

theorem change_keeps {word? : Option String} {act : σ → Except Usage σ} (keeps : s.role.Keeps P)
    (changed : change s word? = .ok act) {form form' : σ} (acted : act form = .ok form') (start : P form) :
    P form' := by
  obtain ⟨long, short, role⟩ := s
  cases role with
  | flag set | counted set =>
    cases changed
    cases acted
    exact keeps form start
  | value set | values set =>
    cases word? with
    | none => cases changed
    | some word =>
      cases changed
      exact keeps word form form' (setValue_eq_ok_iff.mp acted) start
  | help => cases changed

theorem apply_eq_ok_iff {word? : Option String} :
    f.apply s word? = .ok g ↔ (s.role.repeats = true ∨ s.long ∉ f.given) ∧
      ∃ act form, change s word? = .ok act ∧ act f.form = .ok form ∧
        g = { f with form, given := s.long :: f.given } := by
  simp only [apply, bind_eq_ok]
  by_cases again : (!s.role.repeats) = true ∧ s.long ∈ f.given
  · have once : s.role.repeats = false := by simpa using again.1
    simp [again, once, throw_eq_error]
  · have allowed : s.role.repeats = true ∨ s.long ∉ f.given := by
      by_cases repeats : s.role.repeats = true
      · exact .inl repeats
      · exact .inr fun given => again ⟨by simpa using repeats, given⟩
    simp only [again, allowed, if_false, bind_eq_ok, true_and]
    constructor
    · rintro ⟨act, changed, form, acted, ⟨⟩⟩
      exact ⟨act, form, changed, acted, rfl⟩
    · rintro ⟨act, form, changed, acted, rfl⟩
      exact ⟨act, changed, form, acted, rfl⟩

theorem Keeping.apply {word? : Option String} (start : f.Keeping P) (keeps : s.role.Keeps P)
    (applied : f.apply s word? = .ok g) : g.Keeping P := by
  obtain ⟨_, act, form, changed, acted, rfl⟩ := apply_eq_ok_iff.mp applied
  exact ⟨change_keeps keeps changed acted start.form, start.waiting⟩

theorem Keeping.settle (start : f.Keeping P) (settled : f.settle = .ok g) : g.Keeping P := by
  obtain ⟨form, given, waiting⟩ := f
  cases waiting with
  | none =>
    cases settled
    exact start
  | some entry =>
    obtain ⟨s, word?⟩ := entry
    have idle : Keeping P { form, given } := ⟨start.form, nofun⟩
    exact idle.apply (start.waiting s word? rfl) settled

theorem Keeping.take {word? : Option String} (start : f.Keeping P) (keeps : s.role.Keeps P)
    (taken : f.take s word? = .ok g) : g.Keeping P := by
  obtain ⟨settled, done, applied⟩ := bind_eq_ok.mp taken
  exact (start.settle done).apply keeps applied

theorem Keeping.takeValued {attached : Option String} (start : f.Keeping P) (keeps : s.role.Keeps P)
    (taken : f.takeValued s attached = .ok g) : g.Keeping P := by
  cases attached with
  | some word => exact start.take keeps taken
  | none =>
    obtain ⟨settled, done, ⟨⟩⟩ := bind_eq_ok.mp taken
    refine ⟨(start.settle done).form, ?_⟩
    rintro _ _ ⟨⟩
    exact keeps

theorem Keeping.takePlain {word : String} (start : f.Keeping P) (taken : f.takePlain word = .ok g) :
    g.Keeping P := by
  obtain ⟨form, given, waiting⟩ := f
  rcases waiting with _ | ⟨s, _ | value⟩
  · cases taken
  · cases taken
    refine ⟨start.form, ?_⟩
    rintro _ _ ⟨⟩
    exact start.waiting s none rfl
  · cases taken

section
variable (keeps : ∀ s ∈ switches, s.role.Keeps P)
include keeps

theorem Keeping.takeLetters {letters : List Char} (start : f.Keeping P)
    (taken : f.takeLetters switches letters = .ok g) : g.Keeping P := by
  induction letters generalizing f with
  | nil =>
    cases taken
    exact start
  | cons c rest ih =>
    rw [Filling.takeLetters] at taken
    cases found : switches.find? fun s => s.short == some c with
    | none => simp [found] at taken
    | some s =>
      have own := keeps s (List.mem_of_find?_eq_some found)
      by_cases valued : s.role.takesValue = true
      · simp only [found, valued] at taken
        exact start.takeValued own taken
      · simp only [found, valued] at taken
        obtain ⟨next, first, later⟩ := bind_eq_ok.mp taken
        exact ih (start.take own first) later

theorem Keeping.takeLong {name : String} {attached : Option String} (start : f.Keeping P)
    (taken : f.takeLong switches name attached = .ok g) : g.Keeping P := by
  rw [Filling.takeLong] at taken
  cases found : switches.find? fun s => s.long == name with
  | none => simp [found] at taken
  | some s =>
    have own := keeps s (List.mem_of_find?_eq_some found)
    by_cases valued : s.role.takesValue = true
    · simp only [found, valued] at taken
      exact start.takeValued own taken
    · simp only [found, valued] at taken
      cases attached with
      | some word => cases taken
      | none => exact start.take own taken

theorem Keeping.takeAll {words : List String} (start : f.Keeping P) (taken : f.takeAll switches words = .ok g) :
    g.Keeping P := by
  induction words generalizing f with
  | nil => exact start.settle taken
  | cons word rest ih =>
    rw [Filling.takeAll.eq_def] at taken
    cases look : Argument.ofText word with
    | separator =>
      -- Nothing can follow two dashes, so that only the option that waits is left to act.
      cases rest with
      | nil => exact start.settle (by simpa [look] using taken)
      | cons next later => simp [look] at taken
    | long name attached =>
      simp only [look] at taken
      obtain ⟨next, first, later⟩ := bind_eq_ok.mp taken
      exact ih (start.takeLong keeps first) later
    | short letters =>
      simp only [look] at taken
      obtain ⟨next, first, later⟩ := bind_eq_ok.mp taken
      exact ih (start.takeLetters keeps first) later
    | plain =>
      simp only [look] at taken
      obtain ⟨next, first, later⟩ := bind_eq_ok.mp taken
      exact ih (start.takePlain first) later

end

end Filling

theorem readArguments_keeps {switches : List (Switch σ)} {form : σ} {words : List String} {filled : Filling σ}
    (keeps : ∀ s ∈ switches, s.role.Keeps P) (start : P form) (read : readArguments switches form words = .ok filled) :
    P filled.form :=
  (Filling.Keeping.takeAll keeps ⟨start, by simp⟩ read).form

end Bleu.Command
