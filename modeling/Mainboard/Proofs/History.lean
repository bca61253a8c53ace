import Mathlib.Tactic

/-!
# Flags over histories

A flag stands for a history of any length: it is up if an event has raised it and none has dropped
it since.
-/
namespace Mainboard

variable {α : Type} (raises drops : α → Bool) (initially : Bool)

/-- An event has raised a flag and no later one has dropped it, or it was up at the start and no
event has dropped it. -/
def RaisedSince (events : List α) : Prop :=
  (∃ before e after, events = before ++ e :: after ∧ raises e = true ∧
    ∀ x ∈ after, drops x = false) ∨
    initially = true ∧ ∀ x ∈ events, drops x = false

def flagAfter (events : List α) : Bool :=
  events.foldl (fun up e => raises e || up && !drops e) initially

@[simp] theorem flagAfter_nil : flagAfter raises drops initially [] = initially := rfl

@[simp] theorem flagAfter_cons (e : α) (events : List α) :
    flagAfter raises drops initially (e :: events) =
      flagAfter raises drops (raises e || initially && !drops e) events := rfl

theorem flagAfter_append (events later : List α) :
    flagAfter raises drops initially (events ++ later) =
    flagAfter raises drops (flagAfter raises drops initially events) later := List.foldl_append

variable {raises drops initially}

theorem raisedSince_cons_iff {e : α} {events : List α} :
    RaisedSince raises drops initially (e :: events) ↔
      RaisedSince raises drops (raises e || initially && !drops e) events := by
  constructor
  · rintro (⟨before, x, after, heq, hraises, hkept⟩ | ⟨hup, hkept⟩)
    · cases before with
      | nil =>
        obtain ⟨rfl, rfl⟩ := List.cons.inj heq
        exact Or.inr ⟨by simp [hraises], hkept⟩
      | cons y before =>
        obtain ⟨rfl, rfl⟩ := List.cons.inj heq
        exact Or.inl ⟨before, x, after, rfl, hraises, hkept⟩
    · have he := hkept e List.mem_cons_self
      exact Or.inr ⟨by simp [hup, he], fun x hx => hkept x (List.mem_cons_of_mem e hx)⟩
  · rintro (⟨before, x, after, rfl, hraises, hkept⟩ | ⟨hup, hkept⟩)
    · exact Or.inl ⟨e :: before, x, after, rfl, hraises, hkept⟩
    · cases hraises : raises e with
      | true => exact Or.inl ⟨[], e, events, rfl, hraises, hkept⟩
      | false =>
        simp only [hraises, Bool.false_or, Bool.and_eq_true, Bool.not_eq_true'] at hup
        exact Or.inr ⟨hup.1, List.forall_mem_cons.mpr ⟨hup.2, hkept⟩⟩

theorem flagAfter_iff {events : List α} :
    flagAfter raises drops initially events = true ↔ RaisedSince raises drops initially events := by
  induction events generalizing initially with
  | nil => simp [RaisedSince]
  | cons e events ih => rw [flagAfter_cons, ih, raisedSince_cons_iff]

end Mainboard
