import RubyBinding.Proofs.Bonds

/-!
# Ruby names of the members of a class

The names of methods, of fields and of what was moved into a class are drawn from one supply, so
they differ from each other (`Library.memberNames_nodup`). The name that a field is assigned under
is not drawn: it is made from the name of the field, with an equals sign. Numbers do not end in
one, so such a name is that of a member exactly if a member asks for it
(`Library.setter_mem_memberNames_iff`), and all names differ exactly if none does:
`Setting.memberNames_nodup_iff`. `not_nodup_memberNames_point` is a class where one does.
-/

namespace RubyBinding

open Code (Statement)

/-! ## Members -/

/-- All members that are bound under a name. -/
def Members.all (m : Members) : List Named := m.methods ++ m.fields ++ m.adopted

namespace Library

variable (lib : Library) (i : DeclId)

/-- The declarations that a class binds as members, if they have a name. -/
def memberIds : List DeclId :=
  (lib.exposed i).filter (fun m => (lib.tree.get m).kind.isMethod) ++
    (lib.exposed i).filter (fun m => (lib.tree.get m).kind.isReadable) ++
    (lib.adopted i).filter fun m =>
      (lib.tree.get m).kind.isFunction || (lib.tree.get m).kind.isMethod

/-- The names that fields of a class are assigned under. -/
def setterNames : List String :=
  (lib.members i).fields.flatMap fun f =>
    if (lib.tree.get f.1).kind.isWritable then [f.2 ++ "="] else []

variable {lib i}

theorem distinct_append (fresh : Fresh) (wanted more : List Named) :
    distinct fresh (wanted ++ more) =
      ((distinct fresh wanted).1 ++ (distinct (distinct fresh wanted).2 more).1,
        (distinct (distinct fresh wanted).2 more).2) := by
  have hlength : (wanted.map Prod.fst).length = (fresh.pickAll (wanted.map Prod.snd)).1.length := by
    rw [Fresh.length_pickAll, List.length_map, List.length_map]
  simp only [distinct, List.map_append, Fresh.pickAll_append, List.zip_append hlength]

/-- Names are drawn for all members, one after the other. -/
theorem members_all (lib : Library) (i : DeclId) :
    (lib.members i).all = (distinct {} (lib.withNames (lib.memberIds i))).1 := by
  have happend : ∀ is js, lib.withNames (is ++ js) = lib.withNames is ++ lib.withNames js :=
    fun _ _ => List.filterMap_append
  rw [memberIds, happend, happend, distinct_append, distinct_append]
  rfl

theorem memberNames_eq (lib : Library) (i : DeclId) :
    (lib.members i).all.map Prod.snd =
      (({} : Fresh).pickAll ((lib.memberIds i).filterMap lib.memberName?)).1 := by
  rw [members_all, Setting.map_snd_distinct]
  congr 2
  rw [withNames, List.map_filterMap]
  apply List.filterMap_congr
  intro m _
  cases lib.memberName? m <;> rfl

/-- No two members are bound under one name. -/
theorem memberNames_nodup (lib : Library) (i : DeclId) :
    ((lib.members i).all.map Prod.snd).Nodup := by
  rw [memberNames_eq]
  exact (Fresh.pickAll_nodup {} _).1

/-- A name with an equals sign at the end is that of a member exactly if a member asks for it. -/
theorem setter_mem_memberNames_iff {field : String} :
    field ++ "=" ∈ (lib.members i).all.map Prod.snd ↔
      ∃ m ∈ lib.memberIds i, lib.memberName? m = some (field ++ "=") := by
  rw [memberNames_eq, ← List.mem_filterMap]
  constructor
  · intro hmem
    obtain ⟨name, hasked, k, hk⟩ := Fresh.of_mem_pickAll {} hmem
    rwa [← Fresh.eq_of_numbered_eq_setter hk.symm]
  · intro hasked
    exact (Fresh.mem_pickAll_of_asked {} hasked).resolve_left List.not_mem_nil

theorem mem_setterNames_iff {name : String} :
    name ∈ lib.setterNames i ↔ ∃ f ∈ (lib.members i).fields,
      (lib.tree.get f.1).kind.isWritable ∧ name = f.2 ++ "=" := by
  rw [setterNames, List.mem_flatMap]
  refine exists_congr fun f => and_congr_right fun _ => ?_
  by_cases hwritable : (lib.tree.get f.1).kind.isWritable = true
  · simp [hwritable]
  · simp [hwritable]

/-- Different fields are assigned under different names. -/
theorem setterNames_nodup (lib : Library) (i : DeclId) : (lib.setterNames i).Nodup := by
  have hfields : ((lib.members i).fields.map Prod.snd).Nodup := by
    have hall := lib.memberNames_nodup i
    rw [Members.all, List.map_append, List.map_append] at hall
    exact (List.nodup_append.mp (List.nodup_append.mp hall).1).2.1
  unfold setterNames
  generalize (lib.members i).fields = fields at hfields
  induction fields with
  | nil => exact List.nodup_nil
  | cons f fields ih =>
    rw [List.map_cons, List.nodup_cons] at hfields
    rw [List.flatMap_cons]
    split
    · rw [List.singleton_append, List.nodup_cons]
      refine ⟨fun hmem => hfields.1 ?_, ih hfields.2⟩
      obtain ⟨f', hf', hname⟩ := List.mem_flatMap.mp hmem
      split at hname
      · rw [(String.append_left_inj _).mp (List.mem_singleton.mp hname)]
        exact List.mem_map_of_mem hf'
      · cases hname
    · exact ih hfields.2

/-- All names of a class differ exactly if no member asks for one that a field is assigned under. -/
theorem allNames_nodup_iff :
    ((lib.members i).all.map Prod.snd ++ lib.setterNames i).Nodup ↔
      ∀ f ∈ (lib.members i).fields, (lib.tree.get f.1).kind.isWritable →
        ∀ m ∈ lib.memberIds i, lib.memberName? m ≠ some (f.2 ++ "=") := by
  rw [List.nodup_append]
  constructor
  · rintro ⟨-, -, hapart⟩ f hf hwritable m hm hasked
    have hdrawn := setter_mem_memberNames_iff.mpr ⟨m, hm, hasked⟩
    exact hapart _ hdrawn _ (mem_setterNames_iff.mpr ⟨f, hf, hwritable, rfl⟩) rfl
  · intro hclear
    refine ⟨lib.memberNames_nodup i, lib.setterNames_nodup i, ?_⟩
    rintro name hdrawn _ hsetter rfl
    obtain ⟨f, hf, hwritable, rfl⟩ := mem_setterNames_iff.mp hsetter
    obtain ⟨m, hm, hasked⟩ := setter_mem_memberNames_iff.mp hdrawn
    exact hclear f hf hwritable m hm hasked

end Library

/-! ## The bonds of a class -/

/-- The Ruby name that a statement binds. -/
def Code.Statement.ruby? : Statement → Option String
  | bind _ ruby _ => some ruby
  | _ => none

theorem Bonds.filterMap_ruby? {services : List Service} {bonds : List Bond} {ss : List Statement}
    (h : Bonds services bonds ss) : ss.filterMap Statement.ruby? = bonds.map Bond.ruby := by
  induction h with
  | nil => rfl
  | @skip s bonds ss hs _ ih =>
    have hruby : s.ruby? = none := by
      cases s with
      | bind place ruby target => cases hs
      | _ => rfl
    rw [List.filterMap_cons_none hruby, ih]
  | @bind b target bonds ss _ _ ih =>
    have hruby : (Statement.bind b.place b.ruby target).ruby? = some b.ruby := rfl
    rw [List.filterMap_cons_some hruby, ih, List.map_cons]

/-- What is bound is bound at the place of a bond. -/
theorem Bonds.exists_bond {services : List Service} {bonds : List Bond} {ss : List Statement}
    (h : Bonds services bonds ss) {place : Code.Place} {ruby target : String}
    (hs : .bind place ruby target ∈ ss) : ∃ b ∈ bonds, b.place = place ∧ b.ruby = ruby := by
  induction h with
  | nil => cases hs
  | skip hskip _ ih =>
    rcases List.mem_cons.mp hs with rfl | hlater
    · cases hskip
    · exact ih hlater
  | @bind b _ _ _ _ _ ih =>
    rcases List.mem_cons.mp hs with hfirst | hlater
    · cases hfirst
      exact ⟨b, List.mem_cons_self, rfl, rfl⟩
    · obtain ⟨b', hb', hplace⟩ := ih hlater
      exact ⟨b', List.mem_cons_of_mem _ hb', hplace⟩

namespace Setting

variable {g : Setting} {i : DeclId}

/-- If entries are looked up in the order in which they stand, all are found in that order. -/
theorem flatMap_lookup {l : List Named} {is : List DeclId} (hsub : (l.map Prod.fst).Sublist is)
    (his : is.Nodup) : (is.flatMap fun m => (l.lookup m).toList) = l.map Prod.snd := by
  induction is generalizing l with
  | nil =>
    rw [List.map_eq_nil_iff.mp (List.sublist_nil.mp hsub)]
    rfl
  | cons i is ih =>
    rw [List.nodup_cons] at his
    rw [List.flatMap_cons]
    by_cases hkey : i ∈ l.map Prod.fst
    · cases l with
      | nil => cases hkey
      | cons e l =>
        obtain ⟨k, name⟩ := e
        cases hsub with
        | cons _ hall => exact absurd (hall.subset hkey) his.1
        | cons_cons _ hrest =>
          have hlater : ∀ m ∈ is, (((k, name) :: l).lookup m).toList = (l.lookup m).toList := by
            intro m hm
            have hne : (m == k) = false := beq_eq_false_iff_ne.mpr fun h => his.1 (h ▸ hm)
            rw [List.lookup_cons, hne]
          rw [List.lookup_cons_self, List.flatMap_congr hlater, ih hrest his.2]
          rfl
    · have hnone : l.lookup i = none := by
        rw [List.lookup_eq_none_iff]
        intro e he
        exact bne_iff_ne.mpr fun h => hkey (h ▸ List.mem_map_of_mem he)
      have hrest : (l.map Prod.fst).Sublist is := by
        generalize l.map Prod.fst = keys at hsub hkey
        cases hsub with
        | cons _ hall => exact hall
        | cons_cons _ _ => exact absurd List.mem_cons_self hkey
      rw [hnone]
      exact ih hrest his.2

theorem map_fst_adopted (i : DeclId) :
    (g.library.members i).adopted.map Prod.fst = ((g.library.adopted i).filter fun m =>
      (g.library.tree.get m).kind.isFunction || (g.library.tree.get m).kind.isMethod).filter
        fun m => (g.library.memberName? m).isSome :=
  map_fst_distinct _ _

/-- What was moved into a class is bound once. -/
theorem map_ruby_insideBonds (hw : g.library.tree.WellFormed) (hm : g.library.MovesSound)
    (i : DeclId) (handle : String) :
    ((g.library.exposed i ++ g.library.adopted i).flatMap (g.insideBonds i handle)).map Bond.ruby =
      (g.library.members i).adopted.map Prod.snd := by
  have hruby : ∀ m, (g.insideBonds i handle m).map Bond.ruby =
      ((g.library.members i).adopted.lookup m).toList := by
    intro m
    unfold insideBonds
    cases (g.library.members i).adopted.lookup m <;> rfl
  have hkeys : ((g.library.members i).adopted.map Prod.fst).Sublist
      (g.library.exposed i ++ g.library.adopted i) := by
    rw [map_fst_adopted]
    exact (List.filter_sublist.trans List.filter_sublist).trans (List.sublist_append_right _ _)
  rw [List.map_flatMap, List.flatMap_congr fun m _ => hruby m]
  exact flatMap_lookup hkeys (Library.bound_nodup hw hm i)

/-- The names that a class binds are those of its members and those that fields are assigned
under. -/
theorem map_ruby_classBonds_perm (hw : g.library.tree.WellFormed) (hm : g.library.MovesSound)
    (i : DeclId) (handle : String) :
    ((g.classBonds i handle).map Bond.ruby).Perm
      ((g.library.members i).all.map Prod.snd ++ g.library.setterNames i) := by
  have hmethods : ((g.library.members i).methods.flatMap (g.library.methodBonds handle)).map
      Bond.ruby = (g.library.members i).methods.map Prod.snd := by
    rw [List.map_flatMap, List.map_eq_flatMap]
    rfl
  have hfields : ((g.library.members i).fields.flatMap (g.library.fieldBonds handle)).map
      Bond.ruby = (g.library.members i).fields.flatMap fun f =>
        f.2 :: if (g.library.tree.get f.1).kind.isWritable then [f.2 ++ "="] else [] := by
    rw [List.map_flatMap]
    apply List.flatMap_congr
    intro f _
    unfold Library.fieldBonds
    dsimp only
    cases (g.library.tree.get f.1).kind.isWritable <;> rfl
  rw [classBonds, memberBonds, List.map_append, List.map_append, hmethods, hfields,
    map_ruby_insideBonds hw hm, Members.all, List.map_append, List.map_append,
    Library.setterNames]
  -- The names of setters move behind those of what was moved into the class.
  have hapart := List.map_append_flatMap_perm (g.library.members i).fields Prod.snd fun f =>
    if (g.library.tree.get f.1).kind.isWritable then [f.2 ++ "="] else []
  apply ((hapart.symm.append_left _).append_right _).trans
  rw [← List.append_assoc, List.append_assoc, List.append_assoc (_ ++ _) _ (List.flatMap _ _)]
  exact List.perm_append_comm.append_left _

theorem place_cases (k : Kind) (handle : String) :
    k.place handle = .method handle ∨ k.place handle = .singleton handle := by
  unfold Kind.place
  split
  · exact .inr rfl
  · exact .inl rfl

theorem adoptedPlace_cases (lib : Library) (handle : String) (m : DeclId) :
    lib.adoptedPlace handle m = .method handle ∨ lib.adoptedPlace handle m = .singleton handle := by
  unfold Library.adoptedPlace
  split <;> split <;> simp

/-- A class binds names on its objects and on itself. -/
theorem place_of_mem_classBonds {handle : String} {b : Bond} (h : b ∈ g.classBonds i handle) :
    b.place = .method handle ∨ b.place = .singleton handle := by
  rcases List.mem_append.mp h with hmember | hinside
  · rcases List.mem_append.mp hmember with hmethod | hfield
    · obtain ⟨m, -, hb⟩ := List.mem_flatMap.mp hmethod
      rw [List.mem_singleton.mp hb]
      exact place_cases _ _
    · obtain ⟨f, -, hb⟩ := List.mem_flatMap.mp hfield
      have hplace : b.place = (g.library.tree.get f.1).kind.place handle := by
        rcases List.mem_cons.mp hb with rfl | hb
        · rfl
        · split at hb
          · rw [List.mem_singleton.mp hb]
          · cases hb
      rw [hplace]
      exact place_cases _ _
  · obtain ⟨m, -, hb⟩ := List.mem_flatMap.mp hinside
    obtain ⟨ruby, -, hb⟩ := List.mem_flatMap.mp hb
    rw [List.mem_singleton.mp hb]
    exact adoptedPlace_cases _ _ _

/-! ## The result -/

/-- **When the Ruby names of a class differ.** Whenever a class is planned, its own region binds
names on the class and on its objects only. All these names, of methods, of what reads fields and of
what assigns them, and of what was moved into the class, differ exactly if no member asks for the
name of a field with an equals sign, where that field can be assigned to. -/
theorem memberNames_nodup_iff (hw : g.library.tree.WellFormed) (hm : g.library.MovesSound)
    {nested : Nested} {parent : Option String} {s s' : Session} {p : Plan}
    (hrun : (g.classPlan nested parent i).run.run s = (.ok p, s')) :
    ∃ r parts, p = .region r parts ∧
      (∀ place ruby target, .bind place ruby target ∈ r.body →
        place = .method r.handle ∨ place = .singleton r.handle) ∧
      ((r.body.filterMap Statement.ruby?).Nodup ↔
        ∀ f ∈ (g.library.members i).fields, (g.library.tree.get f.1).kind.isWritable →
          ∀ m ∈ g.library.memberIds i, g.library.memberName? m ≠ some (f.2 ++ "=")) := by
  obtain ⟨⟨r, parts, hplan, hbody⟩, -⟩ :=
    (classPlan_bindsAll hw nested parent i).of_run trivial hrun
  refine ⟨r, parts, hplan, ?_, ?_⟩
  · intro place ruby target hs
    obtain ⟨b, hb, rfl, -⟩ := hbody.exists_bond hs
    exact place_of_mem_classBonds hb
  · rw [hbody.filterMap_ruby?, (map_ruby_classBonds_perm hw hm i r.handle).nodup_iff]
    exact Library.allNames_nodup_iff

/-- A point with a field and a method that assigns it. -/
def pointTree : DeclTree :=
  let t := (DeclTree.empty.add DeclTree.root "Point" (.record false [])).2
  let t := (t.add 1 "x" (.field .double false false)).2
  (t.add 1 "setX" (.method .void [⟨some "value", .double⟩] {})).2

theorem pointTree_built : pointTree.Built := by
  refine .add (.add (.add .empty ?_ _ _) ?_ _ _) ?_ _ _ <;> decide

/-- The method is given a name. -/
def pointSetting (name : String) : Setting where
  library := (Library.ofTree pointTree).edits [.rename 3 name]

theorem pointSetting_wellFormed (name : String) : (pointSetting name).library.tree.WellFormed := by
  rw [pointSetting, Library.edits_tree]
  exact pointTree_built.wellFormed

theorem pointSetting_movesSound (name : String) : (pointSetting name).library.MovesSound := by
  apply Library.MovesSound.edits
  refine List.forall_mem_singleton.mpr ?_
  simp only [Edit.InTree, Edit.ids, List.forall_mem_singleton]
  decide

/-- The plan of the point, on its own. -/
def pointPlan (name : String) : Gen Plan :=
  (pointSetting name).classPlan (fun _ _ => return none) none 1

theorem pointPlan_isOk :
    ∀ name ∈ ["assign_x", "x="], ((pointPlan name).run.run {}).1.isOk = true := by
  intro name hname
  have hnone : (pointSetting name).library.virtuals 1 = [] := by cbv
  unfold pointPlan classPlan
  dsimp only
  rw [Library.boundVirtuals, hnone, List.map_nil]
  clear hnone
  revert name
  decide +kernel

theorem memberNames_nodup_point :
    ∃ p s r parts, (pointPlan "assign_x").run.run {} = (.ok p, s) ∧ p = .region r parts ∧
      (r.body.filterMap Statement.ruby?).Nodup := by
  obtain ⟨p, s, hrun⟩ := Library.exists_of_isOk (pointPlan_isOk "assign_x" (by decide))
  obtain ⟨r, parts, hplan, -, hiff⟩ := memberNames_nodup_iff (pointSetting_wellFormed _)
    (pointSetting_movesSound _) hrun
  refine ⟨p, s, r, parts, hrun, hplan, hiff.mpr ?_⟩
  decide +kernel

/-- The method is bound under the name that the field is assigned under. -/
theorem not_nodup_memberNames_point :
    ∃ p s r parts, (pointPlan "x=").run.run {} = (.ok p, s) ∧ p = .region r parts ∧
      (r.body.filterMap Statement.ruby?).Perm ["x=", "x", "x="] ∧
      ¬ (r.body.filterMap Statement.ruby?).Nodup := by
  obtain ⟨p, s, hrun⟩ := Library.exists_of_isOk (pointPlan_isOk "x=" (by decide))
  obtain ⟨⟨r, parts, hplan, hbody⟩, -⟩ :=
    (classPlan_bindsAll (pointSetting_wellFormed _) _ _ _).of_run trivial hrun
  have hall : ((pointSetting "x=").library.members 1).all.map Prod.snd ++
      (pointSetting "x=").library.setterNames 1 = ["x=", "x", "x="] := by
    decide +kernel
  have hnames := map_ruby_classBonds_perm (pointSetting_wellFormed "x=")
    (pointSetting_movesSound _) 1 r.handle
  rw [hall, ← hbody.filterMap_ruby?] at hnames
  refine ⟨p, s, r, parts, hrun, hplan, hnames, ?_⟩
  rw [hnames.nodup_iff]
  decide

end Setting

end RubyBinding
