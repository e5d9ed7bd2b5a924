import Mathlib

namespace Framing

variable {β α γ : Type}

/-- The reader takes exactly this frame off the front of any input, returns the value and leaves what
follows unread. -/
def Takes (read : List β → Option (α × List β)) (frame : List β) (x : α) : Prop :=
  ∀ rest, read (frame ++ rest) = some (x, rest)

theorem Takes.done (x : α) : Takes (fun data : List β => some (x, data)) [] x := fun _ => rfl

theorem Takes.andThen {read : List β → Option (α × List β)}
    {next : α × List β → Option (γ × List β)} {frame frame' : List β} {x : α} {y : γ}
    (first : Takes read frame x) (second : Takes (fun data => next (x, data)) frame' y) :
    Takes (fun data => (read data).bind next) (frame ++ frame') y := by
  intro rest
  dsimp only
  rw [List.append_assoc, first, Option.bind_some]
  exact second rest

theorem Takes.map {read : List β → Option (α × List β)} {frame : List β} {x : α} (f : α → γ)
    (taken : Takes read frame x) :
    Takes (fun data => (read data).map (fun p => (f p.1, p.2))) frame (f x) := by
  intro rest
  dsimp only
  rw [taken, Option.map_some]

theorem Takes.convert {read : List β → Option (α × List β)} {frame : List β} {x : α} {y : γ}
    {f : α → Option γ} (taken : Takes read frame x) (value : f x = some y) :
    Takes (fun data => (read data).bind (fun p => (f p.1).bind (fun y => some (y, p.2)))) frame y := by
  intro rest
  dsimp only
  rw [taken, Option.bind_some, value, Option.bind_some]

theorem Takes.unless {read : List β → Option (α × List β)} {frame : List β} {x : α} {refused : Prop}
    [Decidable refused] (fine : ¬refused) (taken : Takes read frame x) :
    Takes (fun data => if refused then none else read data) frame x := by
  intro rest
  dsimp only
  rw [if_neg fine]
  exact taken rest

theorem Takes.of_eq {read : List β → Option (α × List β)} {frame frame' : List β} {x : α}
    (taken : Takes read frame x) (same : frame = frame') : Takes read frame' x := same ▸ taken

/-- A value that the reader returns is written as the very frame it has taken. -/
def Consumes (read : List β → Option (α × List β)) (write : α → List β) : Prop :=
  ∀ ⦃data x rest⦄, read data = some (x, rest) → data = write x ++ rest

/-- A reader that takes the frames of the values it may return, and takes nothing else for one of them,
reads exactly what begins with such a frame. -/
theorem Consumes.exists_read_iff {read : List β → Option (α × List β)} {write : α → List β}
    {valid : α → Prop} (consumes : Consumes read write)
    (returns : ∀ ⦃data x rest⦄, read data = some (x, rest) → valid x)
    (taken : ∀ x, valid x → Takes read (write x) x) {data : List β} {x : α} :
    (∃ rest, read data = some (x, rest)) ↔ valid x ∧ write x <+: data := by
  constructor
  · rintro ⟨rest, found⟩
    exact ⟨returns found, rest, (consumes found).symm⟩
  · rintro ⟨fine, rest, rfl⟩
    exact ⟨rest, taken x fine rest⟩

end Framing
