import RubyBinding.Proofs.Names
import RubyBinding.Session

/-!
# Reasoning about names that are handed out

The session of a run tells identifiers apart. A step uses names that were handed out before it, and
has further ones handed out. What is to be shown is that no name is used twice, so names are
counted: `Run.Draws held m issued Q` says that what the step `m` yields satisfies `Q`, and that it
uses (`issued`) each name at most as often as it is among the names `held` before, or is handed out
during the step; `Gen.Draws` is the same for steps that can fail. There is one rule for each way in
which steps are put together. A step that starts with no names is enough to know about
(`Draws [] m issued Q`), since names that are held meanwhile do not matter to it.
-/

namespace RubyBinding

variable {α β : Type} {held : List String}

/-! ## Names between two sessions -/

/-- From the first session to the second, these names are handed out: each of them once, and none
that was taken before. -/
structure Session.Hands (s s' : Session) (drawn : List String) : Prop where
  taken : s'.names.taken = drawn ++ s.names.taken
  nodup : drawn.Nodup
  fresh : ∀ n ∈ drawn, n ∉ s.names.taken

namespace Session.Hands

variable {s s' s'' : Session} {drawn more : List String}

theorem of_names (h : s'.names = s.names) : s.Hands s' [] :=
  ⟨by rw [h]; rfl, List.nodup_nil, fun _ hn => absurd hn List.not_mem_nil⟩

theorem trans (h : s.Hands s' drawn) (h' : s'.Hands s'' more) : s.Hands s'' (more ++ drawn) where
  taken := by rw [h'.taken, h.taken, List.append_assoc]
  nodup := by
    refine h'.nodup.append h.nodup fun n hmore hdrawn => ?_
    refine h'.fresh n hmore ?_
    rw [h.taken]
    exact List.mem_append_left _ hdrawn
  fresh := by
    intro n hn hs
    rcases List.mem_append.mp hn with hmore | hdrawn
    · refine h'.fresh n hmore ?_
      rw [h.taken]
      exact List.mem_append_right _ hs
    · exact h.fresh n hdrawn hs

end Session.Hands

/-! ## Steps that cannot fail -/

/-- Where no names were held at first, those that the step before has issued may be used. -/
theorem count_le_held (names : List String) (n : String) :
    names.count n ≤ (names ++ []).count n :=
  Nat.le_of_eq (by rw [List.append_nil])

/-- What a step yields satisfies `Q`, and uses each name at most as often as it was held before or
is handed out during the step. -/
def Run.Draws (held : List String) (m : Run α) (issued : α → List String) (Q : α → Prop) : Prop :=
  ∀ s, ∃ drawn, s.Hands (m.run s).2 drawn ∧ Q (m.run s).1 ∧
    ∀ n, (issued (m.run s).1).count n ≤ held.count n + drawn.count n

namespace Run.Draws

variable {issued : α → List String} {Q P : α → Prop}

theorem pure {a : α} (hQ : Q a) (h : ∀ n, (issued a).count n ≤ held.count n) :
    Run.Draws held (Pure.pure a) issued Q := by
  intro s
  exact ⟨[], .of_names rfl, hQ, h⟩

/-- What is held before the first step is held after it as well. -/
theorem bind {m : Run α} {f : α → Run β} {issued' : β → List String} {R : β → Prop}
    (hm : Run.Draws [] m issued Q)
    (hf : ∀ a, Q a → Run.Draws (issued a ++ held) (f a) issued' R) :
    Run.Draws held (m >>= f) issued' R := by
  intro s
  obtain ⟨drawn, hdrawn, ha, hissued⟩ := hm s
  obtain ⟨more, hmore, hb, hissued'⟩ := hf _ ha (m.run s).2
  refine ⟨more ++ drawn, hdrawn.trans hmore, hb, fun n => ?_⟩
  have hfirst := hissued n
  have hthen := hissued' n
  rw [List.count_append] at hthen ⊢
  rw [List.count_nil] at hfirst
  exact Nat.le_trans hthen (by omega)

theorem mono {m : Run α} (hm : Run.Draws held m issued P) (h : ∀ a, P a → Q a) :
    Run.Draws held m issued Q := by
  intro s
  obtain ⟨drawn, hdrawn, ha, hissued⟩ := hm s
  exact ⟨drawn, hdrawn, h _ ha, hissued⟩

/-- A step that has no names handed out. -/
theorem of_names {m : Run α} (h : ∀ s, (m.run s).2.names = s.names) (hQ : ∀ s, Q (m.run s).1) :
    Run.Draws [] m (fun _ => []) Q :=
  fun s => ⟨[], .of_names (h s), hQ s, fun _ => Nat.le_refl _⟩

/-- One step for each entry of a list. -/
theorem mapM {f : α → Run β} {issued : β → List String} {Q : β → Prop} (l : List α)
    (h : ∀ a ∈ l, Run.Draws [] (f a) issued Q) :
    Run.Draws [] (l.mapM f) (List.flatMap issued) fun bs => ∀ b ∈ bs, Q b := by
  induction l with
  | nil => exact pure (fun _ hb => absurd hb List.not_mem_nil) fun _ => Nat.le_refl _
  | cons a l ih =>
    rw [List.mapM_cons]
    refine bind (h a List.mem_cons_self) fun b hb => ?_
    refine bind (ih fun c hc => h c (List.mem_cons_of_mem _ hc)) fun bs hbs => ?_
    refine pure (List.forall_mem_cons.mpr ⟨hb, hbs⟩) fun n => ?_
    simp only [List.flatMap_cons, List.count_append, List.count_nil]
    omega

/-- Steps that have no names handed out. -/
theorem mapM_nil {f : α → Run β} {Q : β → Prop} (l : List α)
    (h : ∀ a ∈ l, Run.Draws [] (f a) (fun _ => []) Q) :
    Run.Draws [] (l.mapM f) (fun _ => []) fun bs => ∀ b ∈ bs, Q b := by
  intro s
  obtain ⟨drawn, hdrawn, hall, -⟩ := mapM l h s
  exact ⟨drawn, hdrawn, hall, fun _ => Nat.zero_le _⟩

/-- If no names are held at first, no name is used twice. -/
theorem nodup {m : Run α} (hm : Run.Draws [] m issued Q) (s : Session) :
    (issued (m.run s).1).Nodup ∧ Q (m.run s).1 := by
  obtain ⟨drawn, hdrawn, ha, hissued⟩ := hm s
  refine ⟨List.nodup_iff_count_le_one.mpr fun n => ?_, ha⟩
  have hn := hissued n
  have hone := List.nodup_iff_count_le_one.mp hdrawn.nodup n
  rw [List.count_nil] at hn
  omega

end Run.Draws

theorem freshName_draws (base : String) :
    Run.Draws [] (freshName base) (fun name => [name]) fun name =>
      ∃ k, name = Fresh.numbered base k := by
  intro s
  refine ⟨[(freshName base s).1], ⟨rfl, List.nodup_singleton _, ?_⟩, ?_, fun _ => ?_⟩
  · intro n hn
    rw [List.mem_singleton.mp hn]
    exact Fresh.candidate_not_mem _ base
  · exact Fresh.candidate_eq_numbered _ base
  · exact Nat.le_add_left _ _

/-! ## Steps that can fail -/

/-- The names that are used if a step does not fail. -/
def issuedByOk (issued : α → List String) : Except GenError α → List String
  | .ok a => issued a
  | .error _ => []

/-- What a step yields satisfies `Q`, and uses each name at most as often as it was held before or
is handed out during the step. A step that fails uses none. -/
def Gen.Draws (held : List String) (m : Gen α) (issued : α → List String) (Q : α → Prop) : Prop :=
  Run.Draws held m.run (issuedByOk issued) fun r => ∀ a, r = .ok a → Q a

namespace Gen.Draws

variable {issued : α → List String} {Q P : α → Prop}

theorem pure {a : α} (hQ : Q a) (h : ∀ n, (issued a).count n ≤ held.count n) :
    Gen.Draws held (Pure.pure a) issued Q := by
  refine Run.Draws.pure ?_ h
  rintro _ ⟨⟩
  exact hQ

theorem throw (e : GenError) : Gen.Draws held (MonadExcept.throw e : Gen α) issued Q :=
  Run.Draws.pure (fun _ h => nomatch h) fun _ => Nat.zero_le _

theorem bind {m : Gen α} {f : α → Gen β} {issued' : β → List String} {R : β → Prop}
    (hm : Gen.Draws [] m issued Q)
    (hf : ∀ a, Q a → Gen.Draws (issued a ++ held) (f a) issued' R) :
    Gen.Draws held (m >>= f) issued' R := by
  rw [Gen.Draws, ExceptT.run_bind]
  refine Run.Draws.bind hm fun r hr => ?_
  cases r with
  | error e => exact .pure (fun _ h => nomatch h) fun _ => Nat.zero_le _
  | ok a => exact hf a (hr a rfl)

theorem mono {m : Gen α} (hm : Gen.Draws held m issued P) (h : ∀ a, P a → Q a) :
    Gen.Draws held m issued Q :=
  Run.Draws.mono hm fun _ hr a ha => h a (hr a ha)

theorem lift {m : Run α} (hm : Run.Draws held m issued Q) :
    Gen.Draws held (liftM m) issued Q := by
  intro s
  obtain ⟨drawn, hdrawn, ha, hissued⟩ := hm s
  refine ⟨drawn, hdrawn, ?_, hissued⟩
  rintro _ ⟨⟩
  exact ha

theorem except {x : Except GenError α} (h : ∀ a, x = .ok a → Q a) :
    Gen.Draws [] (liftM x) (fun _ => []) Q := by
  cases x with
  | ok a => exact pure (h a rfl) fun _ => Nat.le_refl _
  | error e => exact throw e

theorem getSession : Gen.Draws [] (getThe Session) (fun _ => []) fun _ => True :=
  fun _ => ⟨[], .of_names rfl, fun _ _ => trivial, fun _ => Nat.le_refl _⟩

theorem map {m : Gen α} {f : α → β} {issued' : β → List String} {R : β → Prop}
    (hm : Gen.Draws [] m issued Q) (hf : ∀ a, Q a → R (f a))
    (hissued : ∀ a n, (issued' (f a)).count n ≤ (issued a).count n) :
    Gen.Draws [] (f <$> m) issued' R := by
  rw [map_eq_pure_bind]
  refine bind hm fun a ha => pure (hf a ha) fun n => ?_
  rw [List.append_nil]
  exact hissued a n

/-- One step for each entry of a list. -/
theorem mapM {f : α → Gen β} {issued : β → List String} {Q : β → Prop} (l : List α)
    (h : ∀ a ∈ l, Gen.Draws [] (f a) issued Q) :
    Gen.Draws [] (l.mapM f) (List.flatMap issued) fun bs => ∀ b ∈ bs, Q b := by
  induction l with
  | nil => exact pure (fun _ hb => absurd hb List.not_mem_nil) fun _ => Nat.le_refl _
  | cons a l ih =>
    rw [List.mapM_cons]
    refine bind (h a List.mem_cons_self) fun b hb => ?_
    refine bind (ih fun c hc => h c (List.mem_cons_of_mem _ hc)) fun bs hbs => ?_
    refine pure (List.forall_mem_cons.mpr ⟨hb, hbs⟩) fun n => ?_
    simp only [List.flatMap_cons, List.count_append, List.count_nil]
    omega

/-- What a run that went well yields, where no names were held at first. -/
theorem of_run {m : Gen α} (hm : Gen.Draws [] m issued Q) {s s' : Session} {a : α}
    (hrun : m.run.run s = (.ok a, s')) : (issued a).Nodup ∧ Q a := by
  have h := Run.Draws.nodup hm s
  rw [hrun] at h
  exact ⟨h.1, h.2 a rfl⟩

end Gen.Draws

end RubyBinding
