import RubyBinding.Proofs.Planning

/-!
# Owners

The owner of a declaration is the class or namespace that it was moved into, else the one that
declares it. A library is *grounded* if the way from owner to owner leads from every declaration to
the global namespace. A move is checked against the scopes that declare its target only, so that
moves which are accepted one by one can close a loop:

* `grounded_moveTo_iff`: a move keeps a library grounded exactly if its target is not owned, over
  others, by what is moved;
* `grounded_edits_iff`: a library stays grounded as long as all moves are of this kind. Planning an
  extension for a grounded library ends.
-/

namespace RubyBinding

namespace Library

variable {lib moved : Library} {i j o : DeclId}

/-- The class or namespace that a declaration was moved into, else the one that declares it. -/
def owner? (lib : Library) (i : DeclId) : Option DeclId :=
  match lib.movedTo? i with
  | some owner => some owner
  | none => lib.tree.parent? i

/-- One step from a declaration to its owner. -/
def OwnedBy (lib : Library) (i o : DeclId) : Prop := lib.owner? i = some o

/-- The way from owner to owner leads from one declaration to the other. -/
def LeadsTo (lib : Library) : DeclId → DeclId → Prop := Relation.ReflTransGen lib.OwnedBy

/-- From every declaration, the way from owner to owner leads to the global namespace. -/
def Grounded (lib : Library) : Prop := ∀ i < lib.tree.size, lib.LeadsTo i DeclTree.root

theorem OwnedBy.unique {p : DeclId} (h : lib.OwnedBy i o) (h' : lib.OwnedBy i p) : o = p := by
  rw [OwnedBy, h] at h'
  exact Option.some.inj h'

/-- What a declaration is bound in is its owner. -/
theorem BoundIn.ownedBy (h : lib.BoundIn i o) : lib.OwnedBy i o := by
  unfold BoundIn binder? at h
  unfold OwnedBy owner?
  cases hmoved : lib.movedTo? i with
  | some owner =>
    rw [hmoved] at h
    exact h
  | none =>
    rw [hmoved] at h
    dsimp only at h ⊢
    split at h
    · exact h
    · cases h

/-- Owners have a place in the tree. -/
theorem OwnedBy.lt_size (hw : lib.tree.WellFormed) (hm : lib.MovesSound) (h : lib.OwnedBy i o) :
    o < lib.tree.size := by
  unfold OwnedBy owner? at h
  cases hmoved : lib.movedTo? i with
  | some owner =>
    rw [hmoved] at h
    cases h
    exact hm.lt_size _ (hm.movedTo?_eq_some_iff.mp hmoved)
  | none =>
    rw [hmoved] at h
    exact Nat.lt_trans (hw.parent_lt_of_eq h) (DeclTree.lt_size_of_parent h)

/-- The global namespace is owned by nothing: everything is declared in it. -/
theorem not_ownedBy_root (hw : lib.tree.WellFormed) (hm : lib.MovesSound) :
    ¬ lib.OwnedBy DeclTree.root o := by
  intro h
  unfold OwnedBy owner? at h
  cases hmoved : lib.movedTo? DeclTree.root with
  | some owner =>
    have hbound := binder?_of_movedTo? hmoved
    rw [binder?_root hw hm] at hbound
    cases hbound
  | none =>
    rw [hmoved, hw.parent_root] at h
    cases h

/-! ## Loops -/

/-- From whatever a loop leads to, there is a way back into it. -/
theorem LeadsTo.back (hloop : Relation.TransGen lib.OwnedBy i i) (h : lib.LeadsTo i j) :
    lib.LeadsTo j i := by
  induction h with
  | refl => exact .refl
  | @tail j k _ hstep ih =>
    -- Whichever way leads back from `j`, its first step is the one to `k`.
    have hfirst : ∃ p, lib.OwnedBy j p ∧ lib.LeadsTo p i := by
      rcases Relation.ReflTransGen.cases_head ih with rfl | hfirst
      · exact Relation.TransGen.head'_iff.mp hloop
      · exact hfirst
    obtain ⟨p, hstep', hrest⟩ := hfirst
    rw [hstep.unique hstep']
    exact hrest

/-- A declaration from which the global namespace is reached is on no loop. -/
theorem not_loop_of_leadsTo (hw : lib.tree.WellFormed) (hm : lib.MovesSound)
    (h : lib.LeadsTo i DeclTree.root) : ¬ Relation.TransGen lib.OwnedBy i i := by
  intro hloop
  have hfirst : ∃ o, lib.OwnedBy DeclTree.root o := by
    rcases Relation.ReflTransGen.cases_head (h.back hloop) with rfl | ⟨o, hstep, -⟩
    · obtain ⟨o, hstep, -⟩ := Relation.TransGen.head'_iff.mp hloop
      exact ⟨o, hstep⟩
    · exact ⟨o, hstep⟩
  obtain ⟨o, hstep⟩ := hfirst
  exact not_ownedBy_root hw hm hstep

/-- **Nothing in a grounded library is bound in itself, over others.** -/
theorem Grounded.not_loops (hw : lib.tree.WellFormed) (hm : lib.MovesSound) (hg : lib.Grounded) :
    ¬ lib.Loops := by
  rintro ⟨i, hloop⟩
  have howned : Relation.TransGen lib.OwnedBy i i :=
    hloop.lift id fun _ _ h => h.ownedBy
  obtain ⟨j, -, hlast⟩ := Relation.TransGen.tail'_iff.mp howned
  exact not_loop_of_leadsTo hw hm (hg i (hlast.lt_size hw hm)) howned

/-- From two declarations that own each other, there is no way to anything else. -/
theorem eq_or_eq_of_leadsTo (h : lib.OwnedBy i o) (h' : lib.OwnedBy o i) (hj : lib.LeadsTo i j) :
    j = i ∨ j = o := by
  induction hj with
  | refl => exact .inl rfl
  | tail _ hstep ih =>
    rcases ih with rfl | rfl
    · exact .inr (hstep.unique h)
    · exact .inl (hstep.unique h')

/-! ## One move -/

theorem owner?_moveTo (hmove : lib.moveTo i o = .ok moved) (j : DeclId) :
    moved.owner? j = if j = i then some o else lib.owner? j := by
  have htree : moved.tree = lib.tree := by
    obtain ⟨-, rfl⟩ := moveTo_cases hmove
    rfl
  rw [owner?, owner?, movedTo?_moveTo hmove, htree]
  by_cases hji : j = i
  · rw [if_pos hji, if_pos hji]
  · rw [if_neg hji, if_neg hji]

theorem ownedBy_moveTo_self (hmove : lib.moveTo i o = .ok moved) : moved.OwnedBy i o := by
  rw [OwnedBy, owner?_moveTo hmove, if_pos rfl]

theorem ownedBy_moveTo_of_ne (hmove : lib.moveTo i o = .ok moved) {p : DeclId} (hne : j ≠ i) :
    moved.OwnedBy j p ↔ lib.OwnedBy j p := by
  rw [OwnedBy, owner?_moveTo hmove, if_neg hne]
  rfl

/-- A way to what is moved is there after the move as well. -/
theorem leadsTo_moveTo_self (hmove : lib.moveTo i o = .ok moved) (h : lib.LeadsTo j i) :
    moved.LeadsTo j i := by
  induction h using Relation.ReflTransGen.head_induction_on with
  | refl => exact .refl
  | @head j p hstep _ ih =>
    by_cases hji : j = i
    · rw [hji]
      exact .refl
    · exact .head ((ownedBy_moveTo_of_ne hmove hji).mpr hstep) ih

/-- A way that does not pass by what is moved is there after the move as well. -/
theorem leadsTo_moveTo_of_not (hmove : lib.moveTo i o = .ok moved) {p : DeclId}
    (h : lib.LeadsTo j p) (hout : ¬ lib.LeadsTo j i) : moved.LeadsTo j p := by
  induction h using Relation.ReflTransGen.head_induction_on with
  | refl => exact .refl
  | @head j k hstep _ ih =>
    have hji : j ≠ i := by
      rintro rfl
      exact hout .refl
    have hki : ¬ lib.LeadsTo k i := fun hk => hout (.head hstep hk)
    exact .head ((ownedBy_moveTo_of_ne hmove hji).mpr hstep) (ih hki)

/-- **A move keeps a library grounded exactly if its target is not owned, over others, by what is
moved.** -/
theorem grounded_moveTo_iff (hw : lib.tree.WellFormed) (hm : lib.MovesSound) (hg : lib.Grounded)
    (hi : i < lib.tree.size) (ho : o < lib.tree.size) (hmove : lib.moveTo i o = .ok moved) :
    moved.Grounded ↔ ¬ lib.LeadsTo o i := by
  have htree : moved.tree = lib.tree := by
    obtain ⟨-, rfl⟩ := moveTo_cases hmove
    rfl
  have hm' : moved.MovesSound := hm.moveTo ho hmove
  constructor
  · intro hg' hback
    -- The way from the target back to `i` and the move itself make a loop.
    have hloop : Relation.TransGen moved.OwnedBy i i :=
      .head' (ownedBy_moveTo_self hmove) (leadsTo_moveTo_self hmove hback)
    refine not_loop_of_leadsTo (htree ▸ hw) hm' (hg' i ?_) hloop
    rw [htree]
    exact hi
  · intro hout j hj
    rw [htree] at hj
    have htarget : moved.LeadsTo o DeclTree.root := leadsTo_moveTo_of_not hmove (hg o ho) hout
    -- The old way from `j` still holds up to `i`, from where the move and the target go on.
    induction hg j hj using Relation.ReflTransGen.head_induction_on with
    | refl => exact .refl
    | @head j p hstep _ ih =>
      by_cases hji : j = i
      · rw [hji]
        exact .head (ownedBy_moveTo_self hmove) htarget
      · exact .head ((ownedBy_moveTo_of_ne hmove hji).mpr hstep) (ih (hstep.lt_size hw hm))

/-! ## Any number of edits -/

/-- Where nothing was moved, the way outwards leads to the global namespace. -/
theorem Grounded.ofTree {t : DeclTree} (hw : t.WellFormed) : (ofTree t).Grounded := by
  intro i hi
  induction i using Nat.strongRecOn with
  | ind i ih =>
    by_cases hroot : i = DeclTree.root
    · rw [hroot]
      exact .refl
    · obtain ⟨p, hp, hparent⟩ := hw.parent_lt i hi hroot
      exact .head hparent (ih p hp (Nat.lt_trans hp hi))

theorem grounded_congr {lib' : Library} (htree : lib'.tree = lib.tree)
    (hmoves : lib'.moves = lib.moves) : lib'.Grounded ↔ lib.Grounded := by
  have howned : lib'.OwnedBy = lib.OwnedBy := by
    funext i o
    rw [OwnedBy, OwnedBy, owner?, owner?, movedTo?, movedTo?, htree, hmoves]
  rw [Grounded, Grounded, LeadsTo, LeadsTo, howned, htree]

/-- Whether an edit is a move that is accepted although what is moved owns the target, over
others. -/
def ClosesLoop (lib : Library) (e : Edit) : Prop :=
  ∃ i o moved, e = .moveTo i o ∧ lib.moveTo i o = .ok moved ∧ lib.LeadsTo o i

theorem closesLoop_moveTo_iff (hmove : lib.moveTo i o = .ok moved) :
    lib.ClosesLoop (.moveTo i o) ↔ lib.LeadsTo o i := by
  constructor
  · rintro ⟨i', o', moved', heq, -, hback⟩
    cases heq
    exact hback
  · intro hback
    exact ⟨i, o, moved, rfl, hmove, hback⟩

/-- **An edit keeps a library grounded exactly if it closes no loop.** -/
theorem grounded_edit_iff (hw : lib.tree.WellFormed) (hm : lib.MovesSound) (hg : lib.Grounded)
    {e : Edit} (he : e.InTree lib.tree) : (lib.edit e).Grounded ↔ ¬ lib.ClosesLoop e := by
  by_cases haccepted : ∃ i o moved, e = .moveTo i o ∧ lib.moveTo i o = .ok moved
  · obtain ⟨i, o, moved, rfl, hmove⟩ := haccepted
    have hedit : lib.edit (.moveTo i o) = moved := by
      rw [edit, Edit.apply, hmove]
    have hi : i < lib.tree.size := he i (by simp [Edit.ids])
    have ho : o < lib.tree.size := he o (by simp [Edit.ids])
    rw [hedit, closesLoop_moveTo_iff hmove]
    exact grounded_moveTo_iff hw hm hg hi ho hmove
  · have hout : ¬ lib.ClosesLoop e := by
      rintro ⟨i, o, moved, rfl, hmove, -⟩
      exact haccepted ⟨i, o, moved, rfl, hmove⟩
    rcases edit_cases lib e with ⟨i, o, rfl, hmove⟩ | ⟨htree, hmoves⟩
    · exact absurd ⟨i, o, _, rfl, hmove⟩ haccepted
    · rw [grounded_congr htree hmoves]
      exact iff_of_true hg hout

/-- **A library stays grounded exactly as long as no edit closes a loop.** -/
theorem grounded_edits_iff {t : DeclTree} (hw : t.WellFormed) {es : List Edit}
    (hes : ∀ e ∈ es, e.InTree t) :
    (∀ k, ((ofTree t).edits (es.take k)).Grounded) ↔
      ∀ k e, es[k]? = some e → ¬ ((ofTree t).edits (es.take k)).ClosesLoop e := by
  have hstep : ∀ k e, es[k]? = some e → ((ofTree t).edits (es.take k)).Grounded →
      (((ofTree t).edits (es.take (k + 1))).Grounded ↔
        ¬ ((ofTree t).edits (es.take k)).ClosesLoop e) := by
    intro k e he hg
    have htree : ((ofTree t).edits (es.take k)).tree = t := by
      rw [edits_tree]
      rfl
    have hm : ((ofTree t).edits (es.take k)).MovesSound :=
      .edits fun e' he' => hes e' (List.mem_of_mem_take he')
    have hin : e.InTree ((ofTree t).edits (es.take k)).tree := by
      rw [htree]
      exact hes e (List.mem_of_getElem? he)
    have htake : es.take (k + 1) = es.take k ++ [e] := by
      rw [List.take_add_one, he]
      rfl
    rw [htake, edits_concat]
    refine grounded_edit_iff ?_ hm hg hin
    rw [htree]
    exact hw
  constructor
  · intro hall k e he
    exact (hstep k e he (hall k)).mp (hall (k + 1))
  · intro hout k
    induction k with
    | zero => exact .ofTree hw
    | succ k ih =>
      cases he : es[k]? with
      | some e => exact (hstep k e he ih).mpr (hout k e he)
      | none =>
        rw [List.take_add_one, he, Option.toList_none, List.append_nil]
        exact ih

end Library

/-! ## Planning -/

/-- Planning an extension for a grounded library ends, with plans or with an error of its own. -/
theorem Setting.isLoop_of_extension {g : Setting} (hw : g.library.tree.WellFormed)
    (hm : g.library.MovesSound) (hg : g.library.Grounded) {name : String} {ns : Option DeclId}
    {modules : List ModuleSpec} {e : GenError} {s : Session}
    (hrun : (g.extension name ns modules).run.run {} = (.error e, s)) : e.isLoop = false := by
  have hfails := (extension_yields hw hm name ns modules).of_run_error trivial hrun
  rw [Bool.eq_false_iff]
  intro hloop
  exact hg.not_loops hw hm (hfails.1 hloop)

namespace Library

/-- **When ownership stays acyclic.** After any edits of a tree, refused ones included, every
declaration still leads to the global namespace exactly if no accepted move puts a declaration into
something that it owns, over others; and then no extension is planned for ever. -/
theorem ownership_of_edits {t : DeclTree} (ht : t.Built) {es : List Edit}
    (hes : ∀ e ∈ es, e.InTree t) :
    ((∀ k, ((ofTree t).edits (es.take k)).Grounded) ↔
      ∀ k e, es[k]? = some e → ¬ ((ofTree t).edits (es.take k)).ClosesLoop e) ∧
    (((ofTree t).edits es).Grounded → ∀ g : Setting, g.library = (ofTree t).edits es →
      ∀ name ns modules err s, (g.extension name ns modules).run.run {} = (.error err, s) →
        err.isLoop = false) := by
  refine ⟨grounded_edits_iff ht.wellFormed hes, ?_⟩
  intro hg g hlib name ns modules err s hrun
  have hw : g.library.tree.WellFormed := by
    rw [hlib, edits_tree]
    exact ht.wellFormed
  have hm : g.library.MovesSound := by
    rw [hlib]
    exact .edits hes
  have hg' : g.library.Grounded := by
    rw [hlib]
    exact hg
  exact Setting.isLoop_of_extension hw hm hg' hrun

/-- Two classes side by side. -/
def twoClasses : DeclTree :=
  let t := (DeclTree.empty.add DeclTree.root "A" (.record false [])).2
  (t.add DeclTree.root "B" (.record false [])).2

theorem twoClasses_built : twoClasses.Built := by
  refine .add (.add .empty ?_ _ _) ?_ _ _ <;> decide

/-- The first class can go into the second, and nothing is planned for ever. -/
theorem grounded_of_one_move :
    ((ofTree twoClasses).edits [.moveTo 1 2]).Grounded ∧
      ∀ name ns modules err s,
        (Setting.extension { library := (ofTree twoClasses).edits [.moveTo 1 2] } name ns
          modules).run.run {} = (.error err, s) → err.isLoop = false := by
  have hes : ∀ e ∈ [Edit.moveTo 1 2], e.InTree twoClasses := by decide
  obtain ⟨hiff, hplanned⟩ := ownership_of_edits twoClasses_built hes
  have hg : ((ofTree twoClasses).edits [.moveTo 1 2]).Grounded := by
    refine hiff.mpr ?_ 1
    intro k e he
    have hk : k = 0 := by
      have hlt := (List.getElem?_eq_some_iff.mp he).1
      simpa using hlt
    subst hk
    cases he
    rintro ⟨i, o, moved, heq, -, hback⟩
    cases heq
    -- The second class belongs to the global namespace, which belongs to nothing.
    rcases Relation.ReflTransGen.cases_head hback with heq | ⟨p, hp, hback⟩
    · cases heq
    · cases hp
      rcases Relation.ReflTransGen.cases_head hback with heq | ⟨p, hp, -⟩
      · cases heq
      · cases hp
  exact ⟨hg, hplanned hg _ rfl⟩

/-- After that, the second class can still go into the first, and from neither there is a way to the
global namespace any more. -/
theorem not_grounded_of_two_moves :
    ∃ first second, (ofTree twoClasses).moveTo 1 2 = .ok first ∧
      first.moveTo 2 1 = .ok second ∧ ¬ second.LeadsTo 1 DeclTree.root := by
  refine ⟨_, _, moveTo_eq_ok rfl (by decide +kernel), moveTo_eq_ok rfl (by decide +kernel), ?_⟩
  intro hleads
  have heq : DeclTree.root = 1 ∨ DeclTree.root = 2 := by
    refine eq_or_eq_of_leadsTo ?_ ?_ hleads
    · rfl
    · rfl
  revert heq
  decide

end Library

end RubyBinding
