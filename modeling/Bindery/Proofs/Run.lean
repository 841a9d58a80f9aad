import Bindery.Binding.Monad
/-!
# Runs of rules

What a rule does from a state. `runAt` has one equation for each operation that rules are made of; `Ends` says what a
rule reaches, whether or not it fails, and what holds of its result. A failure keeps the state, so a sequence reaches
what each of its rules reaches.
-/
namespace Bindery.BindM

variable {α β : Type} {c : Context} {s : BindState}

/-! ## Equations -/

@[simp] theorem runAt_pure (a : α) : (pure a : BindM α).runAt c s = (some a, s) := rfl

@[simp] theorem runAt_failure : (failure : BindM α).runAt c s = (none, s) := rfl

theorem runAt_bind (x : BindM α) (f : α → BindM β) :
    (x >>= f).runAt c s =
      match x.runAt c s with
      | (some a, s') => (f a).runAt c s'
      | (none, s') => (none, s') := by
  simp only [runAt, ReaderT.run_bind, OptionT.run_bind, Option.elimM, StateT.run_bind]
  generalize StateT.run (x.run c).run s = r
  obtain ⟨_ | a, s'⟩ := r <;> rfl

theorem runAt_bind_some {x : BindM α} {f : α → BindM β} {a : α} {s' : BindState} (h : x.runAt c s = (some a, s')) :
    (x >>= f).runAt c s = (f a).runAt c s' := by
  rw [runAt_bind, h]

theorem runAt_bind_none {x : BindM α} {f : α → BindM β} {s' : BindState} (h : x.runAt c s = (none, s')) :
    (x >>= f).runAt c s = (none, s') := by
  rw [runAt_bind, h]

/-- **A sequence that gives a result ran its first rule to a result.** -/
theorem runAt_bind_eq_some {x : BindM α} {f : α → BindM β} {b : β} {t : BindState}
    (h : (x >>= f).runAt c s = (some b, t)) :
    ∃ a s', x.runAt c s = (some a, s') ∧ (f a).runAt c s' = (some b, t) := by
  rw [runAt_bind] at h
  rcases hx : x.runAt c s with ⟨_ | a, s'⟩
  · rw [hx] at h; cases h
  · rw [hx] at h; exact ⟨a, s', rfl, h⟩

@[simp] theorem runAt_get : (get : BindM BindState).runAt c s = (some s, s) := rfl

@[simp] theorem runAt_modify (f : BindState → BindState) : (modify f : BindM PUnit).runAt c s = (some (), f s) := rfl

@[simp] theorem runAt_modifyGet (f : BindState → α × BindState) :
    (modifyGet f : BindM α).runAt c s = (some (f s).1, (f s).2) := rfl

@[simp] theorem runAt_read : (read : BindM Context).runAt c s = (some c, s) := rfl

@[simp] theorem runAt_withReader (f : Context → Context) (x : BindM α) :
    (withReader f x : BindM α).runAt c s = x.runAt (f c) s := rfl

@[simp] theorem runAt_attempt (x : BindM α) : (attempt x).runAt c s = (some (x.runAt c s).1, (x.runAt c s).2) := rfl

@[simp] theorem runAt_ask (question : Program → α) : (ask question).runAt c s = (some (question s.program), s) := rfl

/-! ## What a rule reaches -/

/-- From a context and a state, a rule reaches a state of which `reach` holds, and gives a result only if `post` holds
of it there. -/
structure Ends (rule : BindM α) (c : Context) (s : BindState) (reach : BindState → Prop)
    (post : α → BindState → Prop) : Prop where
  reach : reach (rule.runAt c s).2
  post : ∀ a, (rule.runAt c s).1 = some a → post a (rule.runAt c s).2

namespace Ends

variable {reach reach' : BindState → Prop} {post : α → BindState → Prop}

theorem pure {a : α} (h : reach s) (hp : post a s) : Ends (Pure.pure a) c s reach post :=
  ⟨h, by rintro _ ⟨⟩; exact hp⟩

/-- A rule of which nothing is known. -/
theorem unknown (x : BindM α) : Ends x c s (fun _ => True) fun _ _ => True := ⟨trivial, fun _ _ => trivial⟩

theorem of_run {x : BindM α} {a : α} {t : BindState} (hx : x.runAt c s = (some a, t)) (h : reach t) (hp : post a t) :
    Ends x c s reach post := by
  constructor <;> rw [hx]
  · exact h
  · rintro _ ⟨⟩
    exact hp

theorem failure (h : reach s) : Ends (Alternative.failure : BindM α) c s reach post := ⟨h, by rintro _ ⟨⟩⟩

theorem bind {x : BindM α} {f : α → BindM β} {post' : β → BindState → Prop} (hx : Ends x c s reach post)
    (hf : ∀ a t, reach t → post a t → Ends (f a) c t reach post') : Ends (x >>= f) c s reach post' := by
  obtain ⟨hr, hp⟩ := hx
  rcases hx : x.runAt c s with ⟨_ | a, t⟩
  · rw [hx] at hr
    constructor <;> rw [runAt_bind, hx]
    · exact hr
    · rintro _ ⟨⟩
  · rw [hx] at hr hp
    obtain ⟨hr', hp'⟩ := hf a t hr (hp a rfl)
    constructor <;> rw [runAt_bind, hx]
    · exact hr'
    · exact hp'

theorem mono {x : BindM α} {post' : α → BindState → Prop} (h : Ends x c s reach post)
    (hp : ∀ a t, reach t → post a t → post' a t) : Ends x c s reach post' :=
  ⟨h.reach, fun a ha => hp a _ h.reach (h.post a ha)⟩

theorem weaken {x : BindM α} (h : Ends x c s reach post) (hr : ∀ t, reach t → reach' t) : Ends x c s reach' post :=
  ⟨hr _ h.reach, h.post⟩

/-- What the result says of the state, if there is one, may be used for what is reached. -/
theorem of_isSome {x : BindM α} (h : Ends x c s reach post) (hx : (x.runAt c s).1.isSome)
    (hr : ∀ a t, reach t → post a t → reach' t) : Ends x c s reach' post := by
  obtain ⟨a, ha⟩ := Option.isSome_iff_exists.1 hx
  exact ⟨hr a _ h.reach (h.post a ha), h.post⟩

theorem and {x : BindM α} {post' : α → BindState → Prop} (h : Ends x c s reach post) (h' : Ends x c s reach' post') :
    Ends x c s reach fun a t => post a t ∧ post' a t := ⟨h.reach, fun a ha => ⟨h.post a ha, h'.post a ha⟩⟩

/-- What is reached may be used for the result. -/
theorem and_reach {x : BindM α} (h : Ends x c s reach post) :
    Ends x c s reach fun a t => reach t ∧ post a t := h.mono fun _ _ hr hp => ⟨hr, hp⟩

/-- The run itself may be used for the result. -/
theorem and_run {x : BindM α} (h : Ends x c s reach post) :
    Ends x c s reach fun a t => x.runAt c s = (some a, t) ∧ post a t := ⟨h.reach, fun a ha => ⟨Prod.ext ha rfl, h.post a ha⟩⟩

theorem map {x : BindM α} {f : α → β} {post' : β → BindState → Prop} (h : Ends x c s reach post)
    (hp : ∀ a t, reach t → post a t → post' (f a) t) : Ends (f <$> x) c s reach post' := by
  rw [← bind_pure_comp]
  exact h.bind fun a t hr ha => pure hr (hp a t hr ha)

theorem discard {x : BindM α} (h : Ends x c s reach post) : Ends (Functor.discard x) c s reach fun _ _ => True :=
  h.map fun _ _ _ _ => trivial

theorem attempt {x : BindM α} (h : Ends x c s reach post) :
    Ends (BindM.attempt x) c s reach fun r t => ∀ a, r = some a → post a t :=
  ⟨h.reach, by rintro _ ⟨⟩; exact h.post⟩

/-- An attempt of which only the state matters. -/
theorem tried {x : BindM α} (h : Ends x c s reach fun _ _ => True) :
    Ends (BindM.attempt x) c s reach fun _ _ => True := h.attempt.mono fun _ _ _ _ => trivial

theorem withReader {x : BindM α} {f : Context → Context} (h : Ends x (f c) s reach post) :
    Ends (MonadWithReader.withReader f x) c s reach post := ⟨h.reach, h.post⟩

theorem ask {question : Program → α} (h : reach s) (hp : post (question s.program) s) :
    Ends (BindM.ask question) c s reach post :=
  ⟨h, by rintro _ ⟨⟩; exact hp⟩

theorem mapOption {rule : α → BindM β} {post : β → BindState → Prop} {x : Option α} (hs : reach s)
    (h : ∀ a, x = some a → Ends (rule a) c s reach post) :
    Ends (x.mapM rule) c s reach fun r t => ∀ b, r = some b → post b t := by
  cases x with
  | none => exact pure hs (by rintro _ ⟨⟩)
  | some a => exact (h a rfl).map fun b t _ hb => by rintro _ ⟨⟩; exact hb

/-- A rule that is known to give a result leaves the rest to run from there. -/
theorem run_bind {x : BindM α} {f : α → BindM β} {a : α} {t : BindState} {post : β → BindState → Prop}
    (hx : x.runAt c s = (some a, t)) (h : Ends (f a) c t reach post) : Ends (x >>= f) c s reach post := by
  constructor <;> rw [runAt_bind_some hx]
  · exact h.reach
  · exact h.post

/-- A rule that is known to give a result may reach other states than the sequence that it begins. -/
theorem bind_of_isSome {x : BindM α} {f : α → BindM β} {post' : β → BindState → Prop} (hx : Ends x c s reach post)
    (hs : (x.runAt c s).1.isSome) (hf : ∀ a t, reach t → post a t → Ends (f a) c t reach' post') :
    Ends (x >>= f) c s reach' post' := by
  obtain ⟨a, ha⟩ := Option.isSome_iff_exists.1 hs
  exact run_bind (Prod.ext ha rfl) (hf a _ hx.reach (hx.post a ha))

/-- A rule that is known to fail leaves nothing to run. -/
theorem none_bind {x : BindM α} {f : α → BindM β} {t : BindState} {post : β → BindState → Prop}
    (hx : x.runAt c s = (none, t)) (h : reach t) : Ends (x >>= f) c s reach post := by
  constructor <;> rw [runAt_bind_none hx]
  · exact h
  · rintro _ ⟨⟩

theorem pure_bind {a : α} {f : α → BindM β} {post : β → BindState → Prop} (h : Ends (f a) c s reach post) :
    Ends (Pure.pure a >>= f) c s reach post := run_bind rfl h

/-- A question is answered at once. -/
theorem ask_bind {question : Program → α} {f : α → BindM β} {post : β → BindState → Prop}
    (h : Ends (f (question s.program)) c s reach post) : Ends (BindM.ask question >>= f) c s reach post := run_bind rfl h

theorem read_bind {f : Context → BindM β} {post : β → BindState → Prop} (h : Ends (f c) c s reach post) :
    Ends (read >>= f) c s reach post := run_bind rfl h

theorem ite {p : Prop} [Decidable p] {x y : BindM α} (hx : p → Ends x c s reach post)
    (hy : ¬p → Ends y c s reach post) : Ends (if p then x else y) c s reach post := by
  split
  · exact hx ‹_›
  · exact hy ‹_›

end Ends

/-- A rule for every item of a list gives images of the items when each of its results is one. -/
theorem mapM_image {γ : Type} {rule : α → BindM β} {f : α → γ} {g : β → γ}
    (h : ∀ x s, Ends (rule x) c s (fun _ => True) fun y _ => g y = f x) : ∀ (items : List α) (s : BindState),
    Ends (items.mapM rule) c s (fun _ => True) fun ys _ => ys.map g = items.map f
  | [], s => by
    rw [List.mapM_nil]
    exact .pure trivial rfl
  | x :: items, s => by
    rw [List.mapM_cons]
    refine .bind (h x s) fun y t _ hy => .bind (mapM_image h items t) fun ys u _ hys => .pure trivial ?_
    rw [List.map_cons, hy, hys, List.map_cons]

end Bindery.BindM
