/-
# State programs whose state only grows

A program in `StateM σ` that adds to its state and never takes anything away: an allocator, a
table of fresh names, a log.  `Growth` fixes the invariant of the state and the order in which it
grows, and `Growth.Triple pre m post` says that `m`, started in any state that keeps the invariant
and meets `pre`, keeps the invariant, grows the state, and ends with `post` of its result.

What makes such programs easy is that a fact about a value already built stays true while the
program goes on, as long as growth does not take it away (`Growth.Stable`).  So a loop needs no
invariant of its own: what each round gives of its value holds of all of them at the end
(`Triple.mapM_forall₂`, `Triple.mapM`).

`Growth.Refines` compares such a program with one that has only a part of the state, and builds its
results outright where the first one leaves something in the part that grows.
-/
import Mathlib.Data.List.Forall2

universe u

/-- An invariant and the order along which the state grows. -/
structure Growth (σ : Type u) where
  inv : σ → Prop
  le : σ → σ → Prop
  refl : ∀ s, le s s
  trans : ∀ s t r, le s t → le t r → le s r

namespace Growth

variable {σ β γ : Type u} {G : Growth σ}

/-- What growth does not take away. -/
def Stable (G : Growth σ) (P : σ → Prop) : Prop := ∀ s t, G.le s t → P s → P t

/-- The triple of a program in the state monad. -/
def Triple (G : Growth σ) (pre : σ → Prop) (m : StateM σ β) (post : β → σ → Prop) : Prop :=
  ∀ s, G.inv s → pre s → G.inv (m.run s).2 ∧ G.le s (m.run s).2 ∧ post (m.run s).1 (m.run s).2

/-! ## 1. Rules -/

theorem Triple.pure {pre : σ → Prop} {post : β → σ → Prop} {b : β}
    (h : ∀ s, pre s → post b s) : G.Triple pre (pure b) post := by
  intro s hs hp
  exact ⟨hs, G.refl s, h s hp⟩

/-- **Sequencing.**  The second program starts where the first one ended. -/
theorem Triple.bind {pre : σ → Prop} {m : StateM σ β} {mid : β → σ → Prop}
    {f : β → StateM σ γ} {post : γ → σ → Prop} (hm : G.Triple pre m mid)
    (hf : ∀ b, G.Triple (mid b) (f b) post) : G.Triple pre (m >>= f) post := by
  intro s hs hp
  obtain ⟨hinv, hle, hmid⟩ := hm s hs hp
  obtain ⟨hinv', hle', hpost⟩ := hf _ _ hinv hmid
  exact ⟨hinv', G.trans _ _ _ hle hle', hpost⟩

theorem Triple.weaken {pre pre' : σ → Prop} {m : StateM σ β} {post post' : β → σ → Prop}
    (hm : G.Triple pre m post) (hpre : ∀ s, pre' s → pre s)
    (hpost : ∀ b s, post b s → post' b s) : G.Triple pre' m post' := by
  intro s hs hp
  obtain ⟨hinv, hle, h⟩ := hm s hs (hpre s hp)
  exact ⟨hinv, hle, hpost _ _ h⟩

/-- **Frame.**  A stable fact known before is still known afterwards. -/
theorem Triple.frame {pre R : σ → Prop} {m : StateM σ β} {post : β → σ → Prop}
    (hR : G.Stable R) (hm : G.Triple pre m post) :
    G.Triple (fun s => pre s ∧ R s) m (fun b s => post b s ∧ R s) := by
  intro s hs hp
  obtain ⟨hinv, hle, h⟩ := hm s hs hp.1
  exact ⟨hinv, hle, h, hR _ _ hle hp.2⟩

/-- **Loops.**  What every round gives of its own value holds of it at the end. -/
theorem Triple.mapM_forall₂ {ι : Type u} {pre : σ → Prop} {f : ι → StateM σ β}
    {P : ι → β → σ → Prop} (hpre : G.Stable pre) (hP : ∀ i b, G.Stable (P i b)) (l : List ι)
    (hf : ∀ i ∈ l, G.Triple pre (f i) (P i)) :
    G.Triple pre (l.mapM f) (fun bs s => List.Forall₂ (fun i b => P i b s) l bs) := by
  induction l with
  | nil => exact Triple.pure fun s _ => .nil
  | cons i l ih =>
    rw [List.mapM_cons]
    have hone : G.Triple pre (f i) (fun b s => P i b s ∧ pre s) :=
      (Triple.frame hpre (hf i List.mem_cons_self)).weaken (fun s hs => ⟨hs, hs⟩) fun _ _ h => h
    refine Triple.bind hone fun b => ?_
    have hrest := Triple.frame (hP i b) (ih fun j hj => hf j (List.mem_cons_of_mem _ hj))
    refine Triple.bind (hrest.weaken (fun s hs => ⟨hs.2, hs.1⟩) fun _ _ h => h) fun bs => ?_
    exact Triple.pure fun s hs => .cons hs.2 hs.1

/-- The same for what every round gives alike. -/
theorem Triple.mapM {ι : Type u} {pre : σ → Prop} {f : ι → StateM σ β} {P : β → σ → Prop}
    (hpre : G.Stable pre) (hP : ∀ b, G.Stable (P b)) (l : List ι)
    (hf : ∀ i ∈ l, G.Triple pre (f i) P) :
    G.Triple pre (l.mapM f) (fun bs s => ∀ b ∈ bs, P b s) := by
  refine (Triple.mapM_forall₂ hpre (fun _ b => hP b) l hf).weaken (fun _ h => h) fun bs s h => ?_
  clear hf
  induction h with
  | nil => exact fun b hb => absurd hb List.not_mem_nil
  | cons hb _ ih => exact List.forall_mem_cons.mpr ⟨hb, ih⟩

/-! ## 2. Against a program without the part that grows -/

section

variable {τ δ ε : Type u} {π : σ → τ} {pre : σ → Prop}

/-- `m` does to its state what `m'` does to the part of it that `π` shows; what their results have
to do with each other is told in the state behind. -/
def Refines (G : Growth σ) (π : σ → τ) (pre : σ → Prop) (m : StateM σ β) (m' : StateM τ γ)
    (post : β → γ → σ → Prop) : Prop :=
  ∀ s, G.inv s → pre s → G.inv (m.run s).2 ∧ G.le s (m.run s).2 ∧
    π (m.run s).2 = (m'.run (π s)).2 ∧ post (m.run s).1 (m'.run (π s)).1 (m.run s).2

theorem Refines.pure {post : β → γ → σ → Prop} {b : β} {c : γ} (h : ∀ s, pre s → post b c s) :
    G.Refines π pre (pure b) (pure c) post :=
  fun s hs hp => ⟨hs, G.refl s, rfl, h s hp⟩

/-- **Sequencing.** -/
theorem Refines.bind {m : StateM σ β} {m' : StateM τ γ} {mid : β → γ → σ → Prop}
    {f : β → StateM σ δ} {f' : γ → StateM τ ε} {post : δ → ε → σ → Prop}
    (hm : G.Refines π pre m m' mid) (hf : ∀ b c, G.Refines π (mid b c) (f b) (f' c) post) :
    G.Refines π pre (m >>= f) (m' >>= f') post := by
  intro s hs hp
  obtain ⟨hinv, hle, hstate, hmid⟩ := hm s hs hp
  obtain ⟨hinv', hle', hstate', hpost⟩ := hf _ _ _ hinv hmid
  have hrun : (m >>= f).run s = (f (m.run s).1).run (m.run s).2 := rfl
  have hrun' : (m' >>= f').run (π s) = (f' (m'.run (π s)).1).run (m'.run (π s)).2 := rfl
  rw [hrun, hrun', ← hstate]
  exact ⟨hinv', G.trans _ _ _ hle hle', hstate', hpost⟩

/-- Both go on with the same result. -/
theorem Refines.bind_eq {m : StateM σ β} {m' : StateM τ β} {f : β → StateM σ δ}
    {f' : β → StateM τ ε} {post : δ → ε → σ → Prop}
    (hm : G.Refines π pre m m' fun b c _ => b = c)
    (hf : ∀ b, G.Refines π (fun _ => True) (f b) (f' b) post) :
    G.Refines π pre (m >>= f) (m' >>= f') post := by
  refine hm.bind fun b c => ?_
  rintro s hs rfl
  exact hf b s hs trivial

/-- **Frame.** -/
theorem Refines.frame {m : StateM σ β} {m' : StateM τ γ} {post : β → γ → σ → Prop} {R : σ → Prop}
    (hR : G.Stable R) (hm : G.Refines π pre m m' post) :
    G.Refines π (fun s => pre s ∧ R s) m m' (fun b c s => post b c s ∧ R s) := by
  intro s hs hp
  obtain ⟨hinv, hle, hstate, h⟩ := hm s hs hp.1
  exact ⟨hinv, hle, hstate, h, hR _ _ hle hp.2⟩

theorem Refines.weaken {pre' : σ → Prop} {m : StateM σ β} {m' : StateM τ γ}
    {post post' : β → γ → σ → Prop} (hm : G.Refines π pre m m' post) (hpre : ∀ s, pre' s → pre s)
    (hpost : ∀ b c s, post b c s → post' b c s) : G.Refines π pre' m m' post' := by
  intro s hs hp
  obtain ⟨hinv, hle, hstate, h⟩ := hm s hs (hpre s hp)
  exact ⟨hinv, hle, hstate, hpost _ _ _ h⟩

/-- **Loops.** -/
theorem Refines.mapM {ι : Type u} {f : ι → StateM σ β} {f' : ι → StateM τ γ}
    {P : β → γ → σ → Prop} (hP : ∀ b c, G.Stable (P b c)) (l : List ι)
    (hf : ∀ i, G.Refines π (fun _ => True) (f i) (f' i) P) :
    G.Refines π (fun _ => True) (l.mapM f) (l.mapM f')
      (fun bs cs s => List.Forall₂ (fun b c => P b c s) bs cs) := by
  induction l with
  | nil => exact Refines.pure fun s _ => .nil
  | cons i l ih =>
    rw [List.mapM_cons, List.mapM_cons]
    refine (hf i).bind fun b c => ?_
    refine ((Refines.frame (hP b c) ih).weaken (fun s hs => ⟨trivial, hs⟩) fun _ _ _ h => h).bind
      fun bs cs => ?_
    exact Refines.pure fun s hs => .cons hs.2 hs.1

end

end Growth
