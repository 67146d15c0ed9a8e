/-
# State programs seen through a projection

A program that carries more state than another one and otherwise does the same: an observer's
record beside the state proper, a counter, a log.  `Projects π m' m` says that `m'`, seen through
`π`, is `m`: it gives the same result and the same state behind it.

The rules follow the program, so an instrumented program is shown to be the plain one by going
through its text, and what the instrumentation tells may then be said of the plain program.
-/

universe u

/-- `m'` is `m` on the state that `π` shows of its own. -/
def Projects {τ σ β : Type u} (π : τ → σ) (m' : StateM τ β) (m : StateM σ β) : Prop :=
  ∀ t, (m'.run t).1 = (m.run (π t)).1 ∧ π (m'.run t).2 = (m.run (π t)).2

namespace Projects

variable {τ σ β γ : Type u} {π : τ → σ}

theorem pure (b : β) : Projects π (pure b) (pure b) := fun _ => ⟨rfl, rfl⟩

/-- **Sequencing.** -/
theorem bind {m' : StateM τ β} {m : StateM σ β} {f' : β → StateM τ γ} {f : β → StateM σ γ}
    (hm : Projects π m' m) (hf : ∀ b, Projects π (f' b) (f b)) :
    Projects π (m' >>= f') (m >>= f) := by
  intro t
  obtain ⟨hresult, hstate⟩ := hm t
  obtain ⟨hresult', hstate'⟩ := hf (m'.run t).1 (m'.run t).2
  rw [hstate, hresult] at hresult' hstate'
  have hrun' : (m' >>= f').run t = (f' (m'.run t).1).run (m'.run t).2 := rfl
  have hrun : (m >>= f).run (π t) = (f (m.run (π t)).1).run (m.run (π t)).2 := rfl
  rw [hrun', hrun, hresult]
  exact ⟨hresult', hstate'⟩

/-- **Loops.** -/
theorem mapM {ι : Type u} {f' : ι → StateM τ β} {f : ι → StateM σ β} (l : List ι)
    (hf : ∀ i, Projects π (f' i) (f i)) : Projects π (l.mapM f') (l.mapM f) := by
  induction l with
  | nil => exact Projects.pure []
  | cons i l ih =>
    rw [List.mapM_cons, List.mapM_cons]
    exact (hf i).bind fun b => ih.bind fun bs => Projects.pure (b :: bs)

end Projects
