import Mathlib.Data.List.Forall2
import Mathlib.Data.List.Nodup
import RubyBinding.Session

/-!
# Reasoning about what a run notes

Conversions are noted as types are resolved, and a conversion that was noted stays. What is to be
shown of a plan speaks of all conversions that the run has noted in the end. So steps are read
backwards: `Run.Serves noted m Q` says that if the conversions after the step `m` are among `noted`,
then so are those before it, and what `m` yields satisfies `Q`, which may speak of `noted`;
`Gen.Serves` is the same for steps that can fail. There is one rule for each way in which steps are
put together.

Of conversions that are noted one after the other, the first one of each signature is kept
(`Converter.foldl_note`).
-/

namespace RubyBinding

variable {α β : Type} {noted : List Converter}

/-! ## Conversions that were noted -/

/-- A conversion that is needed is there, under its signature. -/
def Meets (noted : List Converter) (needed : Option Converter) : Prop :=
  ∀ c, needed = some c → ∃ n ∈ noted, n.signature = c.signature

theorem Converter.subset_note (cs : List Converter) (c : Converter) : cs ⊆ Converter.note cs c := by
  unfold note
  split
  · exact List.Subset.refl _
  · exact List.subset_append_left cs [c]

/-- Once noted, a conversion is there. -/
theorem Converter.exists_of_note (cs : List Converter) (c : Converter) :
    ∃ n ∈ Converter.note cs c, n.signature = c.signature := by
  unfold note
  split
  next hany =>
    obtain ⟨n, hn, hsig⟩ := List.any_eq_true.mp hany
    exact ⟨n, hn, by simpa using hsig⟩
  next => exact ⟨c, by simp, rfl⟩

namespace Converter

/-- Nothing else is noted. -/
theorem mem_note {cs : List Converter} {a c : Converter} (h : a ∈ note cs c) : a ∈ cs ∨ a = c := by
  unfold note at h
  split at h
  next => exact .inl h
  next => exact (List.mem_append.mp h).imp_right List.mem_singleton.mp

/-- Whether two conversions have one signature. -/
def sameSignature (a b : Converter) : Bool := a.signature == b.signature

/-- **Noting conversions keeps the first one of each signature.** -/
theorem foldl_note (cs noted : List Converter) :
    cs.foldl note noted =
      noted ++ (cs.filter fun c => !noted.any fun n => n.signature == c.signature).eraseDupsBy
        sameSignature := by
  induction cs generalizing noted with
  | nil => simp
  | cons c cs ih =>
    rw [List.foldl_cons, ih, note]
    by_cases hknown : noted.any fun n => n.signature == c.signature
    · rw [if_pos hknown, List.filter_cons_of_neg (by simp [hknown])]
    · rw [if_neg hknown, List.filter_cons_of_pos (by simp [hknown]), List.eraseDupsBy_cons,
        List.filter_filter, List.append_assoc, List.singleton_append]
      congr 3
      apply List.filter_congr
      intro b _
      rw [List.any_append, List.any_cons, List.any_nil, Bool.or_false, Bool.not_or, Bool.and_comm,
        sameSignature, Bool.decide_eq_false, BEq.comm]

theorem nodup_note {noted : List Converter} (h : (noted.map signature).Nodup) (c : Converter) :
    ((note noted c).map signature).Nodup := by
  unfold note
  split
  next => exact h
  next hnew =>
    rw [List.map_append, List.map_singleton, List.nodup_append]
    refine ⟨h, List.nodup_singleton _, ?_⟩
    intro a ha b hb hab
    obtain ⟨n, hn, rfl⟩ := List.mem_map.mp ha
    refine hnew (List.any_eq_true.mpr ⟨n, hn, ?_⟩)
    rw [hab, List.mem_singleton.mp hb]
    exact beq_self_eq_true _

/-- Conversions that were noted have different signatures. -/
theorem nodup_foldl_note (cs : List Converter) {noted : List Converter}
    (h : (noted.map signature).Nodup) : ((cs.foldl note noted).map signature).Nodup := by
  induction cs generalizing noted with
  | nil => exact h
  | cons c cs ih => exact ih (nodup_note h c)

end Converter

/-- What is noted stays, and what is needed is noted. -/
theorem Session.need_serves (s : Session) (needed : Option Converter)
    (h : (s.need needed).converters ⊆ noted) : s.converters ⊆ noted ∧ Meets noted needed := by
  cases needed with
  | none => exact ⟨h, fun _ hc => nomatch hc⟩
  | some c =>
    refine ⟨List.Subset.trans (Converter.subset_note s.converters c) h, ?_⟩
    rintro _ ⟨⟩
    obtain ⟨n, hn, hsig⟩ := Converter.exists_of_note s.converters c
    exact ⟨n, h hn, hsig⟩

/-! ## Steps that cannot fail -/

/-- If a step ends with conversions among `noted`, it began with such, and yields what satisfies
`Q`. -/
def Run.Serves (noted : List Converter) (m : Run α) (Q : α → Prop) : Prop :=
  ∀ s, (m.run s).2.converters ⊆ noted → s.converters ⊆ noted ∧ Q (m.run s).1

namespace Run.Serves

variable {Q P : α → Prop}

theorem pure {a : α} (h : Q a) : Run.Serves noted (Pure.pure a) Q := by
  intro s hs
  exact ⟨hs, h⟩

/-- What the first step yields is known only once the second step has been followed back. -/
theorem bind {m : Run α} {f : α → Run β} {R : β → Prop} (hm : Run.Serves noted m Q)
    (hf : ∀ a, Run.Serves noted (f a) fun b => Q a → R b) : Run.Serves noted (m >>= f) R := by
  intro s hs
  obtain ⟨hmid, hb⟩ := hf (m.run s).1 (m.run s).2 hs
  obtain ⟨hstart, ha⟩ := hm s hmid
  exact ⟨hstart, hb ha⟩

theorem mono {m : Run α} (hm : Run.Serves noted m P) (h : ∀ a, P a → Q a) :
    Run.Serves noted m Q := by
  intro s hs
  obtain ⟨hstart, ha⟩ := hm s hs
  exact ⟨hstart, h _ ha⟩

/-- A step that notes nothing. -/
theorem of_converters {m : Run α} (h : ∀ s, (m.run s).2.converters = s.converters)
    (hQ : ∀ s, Q (m.run s).1) : Run.Serves noted m Q := by
  intro s hs
  rw [h s] at hs
  exact ⟨hs, hQ s⟩

/-- One step for each entry of a list yields one thing for each entry. -/
theorem mapM {f : α → Run β} {R : α → β → Prop} (l : List α)
    (h : ∀ a ∈ l, Run.Serves noted (f a) (R a)) :
    Run.Serves noted (l.mapM f) (List.Forall₂ R l) := by
  induction l with
  | nil => exact pure .nil
  | cons a l ih =>
    rw [List.mapM_cons]
    refine bind (h a List.mem_cons_self) fun b => ?_
    refine bind (ih fun c hc => h c (List.mem_cons_of_mem _ hc)) fun bs => ?_
    exact pure fun hbs hb => .cons hb hbs

end Run.Serves

/-! ## Steps that can fail -/

/-- If a step ends with conversions among `noted`, it began with such, and yields what satisfies
`Q` unless it fails. -/
def Gen.Serves (noted : List Converter) (m : Gen α) (Q : α → Prop) : Prop :=
  Run.Serves noted m.run fun r => ∀ a, r = .ok a → Q a

namespace Gen.Serves

variable {Q P : α → Prop}

theorem pure {a : α} (h : Q a) : Gen.Serves noted (Pure.pure a) Q := by
  refine Run.Serves.pure ?_
  rintro _ ⟨⟩
  exact h

theorem throw (e : GenError) : Gen.Serves noted (MonadExcept.throw e : Gen α) Q :=
  Run.Serves.pure fun _ h => nomatch h

theorem bind {m : Gen α} {f : α → Gen β} {R : β → Prop} (hm : Gen.Serves noted m Q)
    (hf : ∀ a, Gen.Serves noted (f a) fun b => Q a → R b) : Gen.Serves noted (m >>= f) R := by
  rw [Gen.Serves, ExceptT.run_bind]
  refine Run.Serves.bind hm fun r => ?_
  cases r with
  | error e => exact .pure fun _ _ h => nomatch h
  | ok a => exact .mono (hf a) fun _ hr hQ b hb => hr b hb (hQ a rfl)

theorem mono {m : Gen α} (hm : Gen.Serves noted m P) (h : ∀ a, P a → Q a) :
    Gen.Serves noted m Q :=
  Run.Serves.mono hm fun _ hr a ha => h a (hr a ha)

theorem lift {m : Run α} (hm : Run.Serves noted m Q) : Gen.Serves noted (liftM m) Q := by
  intro s hs
  obtain ⟨hstart, ha⟩ := hm s hs
  refine ⟨hstart, ?_⟩
  rintro _ ⟨⟩
  exact ha

theorem except {x : Except GenError α} (h : ∀ a, x = .ok a → Q a) :
    Gen.Serves noted (liftM x) Q := by
  cases x with
  | ok a => exact pure (h a rfl)
  | error e => exact throw e

theorem getSession : Gen.Serves noted (getThe Session) fun _ => True :=
  Run.Serves.of_converters (fun _ => rfl) fun _ _ _ => trivial

theorem map {m : Gen α} {f : α → β} {R : β → Prop} (hm : Gen.Serves noted m Q)
    (hf : ∀ a, Q a → R (f a)) : Gen.Serves noted (f <$> m) R := by
  rw [map_eq_pure_bind]
  exact bind hm fun a => pure (hf a)

/-- One step for each entry of a list: all that is yielded satisfies one property. -/
theorem mapM {f : α → Gen β} {R : β → Prop} (l : List α)
    (h : ∀ a ∈ l, Gen.Serves noted (f a) R) :
    Gen.Serves noted (l.mapM f) fun bs => ∀ b ∈ bs, R b := by
  induction l with
  | nil => exact pure fun _ hb => absurd hb List.not_mem_nil
  | cons a l ih =>
    rw [List.mapM_cons]
    refine bind (h a List.mem_cons_self) fun b => ?_
    refine bind (ih fun c hc => h c (List.mem_cons_of_mem _ hc)) fun bs => ?_
    exact pure fun hbs hb => List.forall_mem_cons.mpr ⟨hb, hbs⟩

end Gen.Serves

end RubyBinding
