/-
Computations that take notes and may stop. The notes that were taken before a stop are kept, so what
was noted can be told also of a computation that comes to nothing. The notes have no part in the result
(`result_bind`).
-/
namespace ScriptAudit

structure Noted (ν ε α : Type) where
  notes : List ν
  result : Except ε α

namespace Noted

variable {ν ε α β : Type}

def note (notes : List ν) : Noted ν ε Unit := ⟨notes, .ok ()⟩

def stop (error : ε) : Noted ν ε α := ⟨[], .error error⟩

def ofExcept (result : Except ε α) : Noted ν ε α := ⟨[], result⟩

def andThen (first : Noted ν ε α) (next : α → Noted ν ε β) : Noted ν ε β :=
  match first.result with
  | .error error => ⟨first.notes, .error error⟩
  | .ok a => ⟨first.notes ++ (next a).notes, (next a).result⟩

instance : Monad (Noted ν ε) where
  pure a := ⟨[], .ok a⟩
  bind := andThen

@[simp]
theorem result_pure (a : α) : (pure a : Noted ν ε α).result = .ok a := rfl

@[simp]
theorem result_note (notes : List ν) : (note notes : Noted ν ε Unit).result = .ok () := rfl

@[simp]
theorem result_stop (error : ε) : (stop error : Noted ν ε α).result = .error error := rfl

@[simp]
theorem result_ofExcept (result : Except ε α) : (ofExcept result : Noted ν ε α).result = result := rfl

@[simp]
theorem result_bind (x : Noted ν ε α) (f : α → Noted ν ε β) :
    (x >>= f).result = x.result >>= fun a => (f a).result := by
  obtain ⟨notes, result⟩ := x
  cases result <;> rfl

@[simp]
theorem result_mapM (f : α → Noted ν ε β) (as : List α) :
    (as.mapM f).result = as.mapM fun a => (f a).result := by
  have hloop : ∀ (as : List α) (done : List β),
      (List.mapM.loop f as done).result = List.mapM.loop (fun a => (f a).result) as done := by
    intro as
    induction as with
    | nil => exact fun done => rfl
    | cons a as ih =>
      intro done
      simp only [List.mapM.loop, result_bind, ih]
  exact hloop as []

/-- The same computation with other notes and other errors. -/
def convert {ν' ε' : Type} (f : ν → ν') (g : ε → ε') (m : Noted ν ε α) : Noted ν' ε' α :=
  ⟨m.notes.map f, m.result.mapError g⟩

end Noted

end ScriptAudit
