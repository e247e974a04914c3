import Chbackup.Lib.Threads

/-!
# What a part of a program leaves alone

Two more rules for programs that mind what they learn.  A part of a program is checked once, for the
calls that it makes; a caller may permit more, and carries through the part whatever these calls keep.
-/

namespace CallTree

variable {C : Type} {R : C → Type} {L ε α : Type} {learn : L → Event C R → L} {P P' : L → C → Prop}
  {Q : L → Except ε α → Prop} {l : L} {p : Prog C R ε α}

/-- A caller may permit more. -/
theorem Obeys.permit (hp : Obeys learn P Q l p) (hP : ∀ l c, P l c → P' l c) : Obeys learn P' Q l p := by
  induction p generalizing l with
  | ret a => exact hp
  | fail e => exact hp
  | call c k ih => exact ⟨hP _ _ hp.1, fun r => ih r (hp.2 r)⟩

/-- **The frame rule**: what every permitted call keeps holds at the end. -/
theorem Obeys.frame {F : L → Prop} (hp : Obeys learn P Q l p)
    (hF : ∀ l c r, P l c → F l → F (learn l ⟨c, r⟩)) (hl : F l) :
    Obeys learn P (fun l r => Q l r ∧ F l) l p := by
  induction p generalizing l with
  | ret a => exact ⟨hp, hl⟩
  | fail e => exact ⟨hp, hl⟩
  | call c k ih => exact ⟨hp.1, fun r => ih r (hp.2 r) (hF _ _ _ hp.1 hl)⟩

end CallTree
