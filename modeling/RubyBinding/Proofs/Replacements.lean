import RubyBinding.Proofs.Bodies
import RubyBinding.Proofs.Shifts

/-!
# Replacing a function body

Of the body of a function nothing is read, and yet it is looked at: whether a function is deleted is
decided on the text of its whole declaration. If the lexemes between the braces of a body are
replaced (`Replaces`), then all that is read has the same gist as long as a deletion neither comes
nor goes with them (`Replaces.gist_readItems`), and so the same is entered (`Replaces.enter_eq`).
-/

namespace RubyBinding.Header

open Grammar.Tree Header.Tree

/-- The lexemes `ls'` are the lexemes `ls` with other ones between the braces of a body, and `f`
tells where the places beside the body have gone. -/
structure Replaces (ls ls' : Array Lexeme) (f : Nat → Nat) (start stop : Nat)
    (inner inner' : String) : Prop where
  before : Keeps ls ls' f fun i => decide (i ≤ start)
  after : Keeps ls ls' f fun i => decide (stop ≤ i)
  across : ∀ a b, stop ≤ a → b ≤ start →
    (ls'.extract (f a) (f b)).toList = (ls.extract a b).toList
  stretch_around : ∀ a b, a ≤ start → stop ≤ b →
    Braced inner inner' (stretch ls a b) (stretch ls' (f a) (f b))
  joined_around : ∀ a b, a ≤ start → stop ≤ b →
    Braced inner inner' (joined (ls.extract a b).toList) (joined (ls'.extract (f a) (f b)).toList)

namespace Replaces

variable {ls ls' : Array Lexeme} {f : Nat → Nat} {start stop : Nat} {inner inner' : String}
variable (h : Replaces ls ls' f start stop inner inner')
include h

/-! ### Beside the body -/

theorem text_beside {t : Tree} (ht : Beside start stop t) : (t.move f).text ls' = t.text ls :=
  ht.elim h.before.text_move h.after.text_move

theorem stretch_beside {p : Part} {a b : Nat} {children : List Tree}
    (ht : Beside start stop (part p a b children)) : stretch ls' (f a) (f b) = stretch ls a b :=
  h.text_beside ht

theorem isSpelled_sound {t : Tree} (ht : Sound start stop t) {p : Part} (hp : mayHold p = false)
    (spelling : String) : (t.move f).isSpelled ls' p spelling = t.isSpelled ls p spelling := by
  rw [isSpelled, isSpelled, isPart_move]
  by_cases hpart : t.isPart p
  · rw [h.text_beside (ht.beside hpart hp)]
  · rw [Bool.eq_false_iff.mpr hpart]
    rfl

theorem any_isSpelled_sound {ts : List Tree} (hts : AllSound start stop ts) {p : Part}
    (hp : mayHold p = false) (spelling : String) :
    (moveAll f ts).any (Tree.isSpelled ls' p spelling) = ts.any (Tree.isSpelled ls p spelling) := by
  rw [moveAll_eq_map, List.any_map, Bool.eq_iff_iff, List.any_eq_true, List.any_eq_true]
  exact exists_congr fun t => and_congr_right fun ht => by
    rw [Function.comp_apply, h.isSpelled_sound (hts t ht) hp]

/-- The text of the first tree of a kind that may not hold the body. -/
theorem findText_sound {ts : List Tree} (hts : AllSound start stop ts) {q : Tree → Bool}
    (hq : ∀ t : Tree, q (t.move f) = q t)
    (hbeside : ∀ t, Sound start stop t → q t → Beside start stop t) :
    ((moveAll f ts).find? q).map (Tree.text ls') = (ts.find? q).map (Tree.text ls) := by
  rw [find?_moveAll hq, Option.map_map]
  refine Option.map_congr fun t ht => h.text_beside ?_
  exact hbeside t (hts t (List.mem_of_find?_eq_some ht)) (List.find?_some ht)

theorem className_sound {ts : List Tree} (hts : AllSound start stop ts) :
    (child? .className (moveAll f ts)).map (Tree.text ls') =
      (child? .className ts).map (Tree.text ls) :=
  h.findText_sound hts (isPart_move _) fun _ ht hp => ht.beside hp rfl

theorem namespaceName_sound {ts : List Tree} (hts : AllSound start stop ts) :
    namespaceName ls' (moveAll f ts) = namespaceName ls ts := by
  refine h.findText_sound hts (fun t => by rw [isToken_move, isPart_move]) fun t ht hq => ?_
  rcases Bool.or_eq_true_iff.mp hq with hword | hnested
  · exact ht.beside_of_isDeclarator (isDeclarator_of_isWord hword)
  · exact ht.beside hnested rfl

theorem typeNamed_sound {t : Tree} (ht : Sound start stop t) (hp : t.isPart .typeSpecifier) :
    typeNamed ls' (t.move f) = typeNamed ls t := by
  rcases ht with (ht | ht) | ht
  · exact h.before.typeNamed_move ht
  · exact h.after.typeNamed_move ht
  · cases t with
    | token => cases hp
    | part p a b children =>
      have htype : p = .typeSpecifier := by simpa [isPart, part?] using hp
      obtain ⟨-, -, -, halone, hholds⟩ := holds_part.mp ht
      obtain ⟨q, c, d, inner, rfl, hq⟩ := exists_of_isTaggedAlone (halone htype)
      -- Only the name of the class is looked at, which stands beside the body.
      have hinner : AllSound start stop inner :=
        (allSound_of_holdsAmong hholds _ List.mem_cons_self).allSound_children
      have hc : (Tree.move f (part p a b [part q c d inner])).children =
          [part q (f c) (f d) (moveAll f inner)] := by
        rw [children_move, Tree.children, moveAll, move, moveAll]
      rw [typeNamed_of_isTagged hc hq, h.className_sound hinner, typeNamed_of_isTagged rfl hq]

theorem specifiersAmong_sound {ts : List Tree} (hts : AllSound start stop ts) :
    specifiersAmong ls' (moveAll f ts) = specifiersAmong ls ts := by
  have hbase : (child? .typeSpecifier (moveAll f ts)).bind (typeNamed ls') =
      (child? .typeSpecifier ts).bind (typeNamed ls) := by
    rw [child?_moveAll, Option.bind_map]
    refine Option.bind_congr fun t ht => ?_
    exact h.typeNamed_sound (hts t (List.mem_of_find?_eq_some ht)) (List.find?_some ht)
  simp only [specifiersAmong, hbase, h.any_isSpelled_sound hts (p := .qualifier) rfl,
    h.any_isSpelled_sound hts (p := .storage) rfl, any_isToken_moveAll]

theorem declarators_sound {ts : List Tree} (hts : AllSound start stop ts) :
    ((moveAll f ts).filter isDeclarator).map (readDeclarator ls') =
      (ts.filter isDeclarator).map (readDeclarator ls) := by
  have hsame : isDeclarator ∘ Tree.move f = isDeclarator := funext isDeclarator_move
  rw [moveAll_eq_map, List.filter_map, List.map_map, hsame]
  refine List.map_congr_left fun t ht => ?_
  obtain ⟨hmem, hdeclarator⟩ := List.mem_filter.mp ht
  rcases (hts t hmem).beside_of_isDeclarator hdeclarator with hside | hside
  · exact h.before.readDeclarator_move t hside
  · exact h.after.readDeclarator_move t hside

theorem bases_sound {ts : List Tree} (hts : AllSound start stop ts) (default : Access) :
    (((child? .baseClause (moveAll f ts)).map Tree.children).map
        (readBases ls' default none false)).getD [] =
      (((child? .baseClause ts).map Tree.children).map (readBases ls default none false)).getD [] := by
  rw [child?_moveAll, Option.map_map, Option.map_map, Option.map_map]
  refine congrArg (Option.getD · []) (Option.map_congr fun t ht => ?_)
  rw [Function.comp_apply, Function.comp_apply, Function.comp_apply, children_move]
  rcases (hts t (List.mem_of_find?_eq_some ht)).beside (List.find?_some ht) rfl with hside | hside
  · exact h.before.readBases_move default none false (allWithin_children hside)
  · exact h.after.readBases_move default none false (allWithin_children hside)

/-! ### Texts around the body -/

/-- A stretch that ends in front of the body does not have it, wherever it begins. -/
theorem extract_upTo {a b : Nat} (ha : IsSide start stop a) (hb : b ≤ start) :
    (ls'.extract (f a) (f b)).toList = (ls.extract a b).toList := by
  rcases ha with ha | ha
  · exact h.before.extract a b (decide_eq_true ha) (decide_eq_true hb)
  · exact h.across a b ha hb

theorem extract_from {a b : Nat} (ha : stop ≤ a) (hb : IsSide start stop b) :
    (ls'.extract (f a) (f b)).toList = (ls.extract a b).toList := by
  rcases hb with hb | hb
  · exact h.across a b ha hb
  · exact h.after.extract a b (decide_eq_true ha) (decide_eq_true hb)

theorem stretch_upTo {a b : Nat} (ha : IsSide start stop a) (hb : b ≤ start) :
    stretch ls' (f a) (f b) = stretch ls a b := by
  rw [stretch, stretch, h.extract_upTo ha hb]

theorem stretch_from {a b : Nat} (ha : stop ≤ a) (hb : IsSide start stop b) :
    stretch ls' (f a) (f b) = stretch ls a b := by
  rw [stretch, stretch, h.extract_from ha hb]

theorem gistOfDefault_text {t : Tree} (ht : Sound start stop t) :
    gistOfDefault ((t.move f).text ls') = gistOfDefault (t.text ls) := by
  obtain ⟨ha, hb⟩ := ht.isSide
  rw [text_eq, text_eq, start_move, stop_move]
  rcases ha with ha | ha
  · rcases hb with hb | hb
    · rw [h.stretch_upTo (.inl ha) hb]
    · exact (h.stretch_around _ _ ha hb).gistOfDefault_eq
  · rw [h.stretch_from ha hb]

/-- The text of a declaration, in which a function body may be cut off, has the gist it had. -/
theorem gistOfText_declaration (hinner : isDeleted inner' = isDeleted inner) {a m b : Nat}
    (ha : IsSide start stop a) (hm : IsSide start stop m) (hb : IsSide start stop b) :
    gistOfText (stretch ls' (f a) (f m) ++ joined (ls'.extract (f m) (f b)).toList) =
      gistOfText (stretch ls a m ++ joined (ls.extract m b).toList) := by
  -- At most one of the two stretches has the body: the head, or what is cut off.
  rcases hm with hm | hm
  · rw [h.stretch_upTo ha hm]
    rcases hb with hb | hb
    · rw [h.extract_upTo (.inl hm) hb]
    · exact ((h.joined_around m b hm hb).append_left _).gistOfText_eq hinner
  · rw [h.extract_from hm hb]
    rcases ha with ha | ha
    · exact ((h.stretch_around a m ha hm).append_right _).gistOfText_eq hinner
    · rw [h.stretch_from ha (.inr hm)]

/-! ### Declarations, definitions and members -/

theorem gist_declarationOf (hinner : isDeleted inner' = isDeleted inner)
    {definition definition' : Option Definition}
    (hdefinition : definition'.map Definition.gist = definition.map Definition.gist)
    (isField : Bool) {a b : Nat} {ts : List Tree} (ha : IsSide start stop a)
    (hb : IsSide start stop b) (hts : AllSound start stop ts) :
    (declarationOf ls' definition' isField (f a) (f b) (moveAll f ts)).gist =
      (declarationOf ls definition isField a b ts).gist := by
  have hmiddle : (bodyStart? (moveAll f ts)).getD (f b) = f ((bodyStart? ts).getD b) := by
    rw [bodyStart?_moveAll, Option.getD_map]
  have hside : IsSide start stop ((bodyStart? ts).getD b) := by
    cases hm : bodyStart? ts with
    | none => exact hb
    | some m => exact isSide_of_bodyStart? hts hm
  have hdefault : ((initialiserAmong (moveAll f ts)).map (Tree.text ls')).map gistOfDefault =
      ((initialiserAmong ts).map (Tree.text ls)).map gistOfDefault := by
    rw [initialiserAmong_moveAll, Option.map_map, Option.map_map, Option.map_map]
    refine Option.map_congr fun t ht => ?_
    simp only [Function.comp_apply]
    exact h.gistOfDefault_text (hts t (mem_of_initialiserAmong ht))
  have htext := h.gistOfText_declaration hinner ha hside hb
  unfold joined at htext
  simp only [declarationOf, hmiddle, Declaration.gist_mk, hdefinition, h.specifiersAmong_sound hts,
    h.declarators_sound hts, htext]
  cases isField with
  | false => rfl
  | true => simp only [if_true, hdefault]

theorem gist_declaration (hinner : isDeleted inner' = isDeleted inner)
    {definition definition' : Option Definition}
    (hdefinition : definition'.map Definition.gist = definition.map Definition.gist)
    (isField : Bool) {p : Part} {a b : Nat} {ts : List Tree}
    (ht : Sound start stop (part p a b ts)) :
    (some (Member.declaration
        (declarationOf ls' definition' isField (f a) (f b) (moveAll f ts)))).map Member.gist =
      (some (Member.declaration (declarationOf ls definition isField a b ts))).map Member.gist := by
  obtain ⟨ha, hb⟩ : IsSide start stop a ∧ IsSide start stop b := ht.isSide
  have hts : AllSound start stop ts := ht.allSound_children
  rw [Option.map_some, Option.map_some, Member.gist, Member.gist,
    h.gist_declarationOf hinner hdefinition isField ha hb hts]

/-- The gist of a type by itself. -/
theorem gist_typeAlone (hinner : isDeleted inner' = isDeleted inner)
    {definition definition' : Option Definition}
    (hdefinition : definition'.map Definition.gist = definition.map Definition.gist)
    {p : Part} {a b : Nat} {ts : List Tree} (ht : Sound start stop (part p a b ts)) :
    (some (Member.declaration
        (.mk definition' {} [] false none (stretch ls' (f a) (f b)) ""))).map Member.gist =
      (some (Member.declaration
        (.mk definition {} [] false none (stretch ls a b) ""))).map Member.gist := by
  obtain ⟨ha, hb⟩ : IsSide start stop a ∧ IsSide start stop b := ht.isSide
  have htext : gistOfText (stretch ls' (f a) (f b)) = gistOfText (stretch ls a b) := by
    rcases hb with hb | hb
    · rw [h.stretch_upTo ha hb]
    · rcases ha with ha | ha
      · exact (h.stretch_around a b ha hb).gistOfText_eq hinner
      · rw [h.stretch_from ha (.inr hb)]
  rw [Option.map_some, Option.map_some, Member.gist, Member.gist, Declaration.gist_mk,
    Declaration.gist_mk, hdefinition, String.append_empty, String.append_empty, htext]

theorem readEnumeration_beside {p : Part} {a b : Nat} {children : List Tree}
    (ht : Beside start stop (part p a b children)) :
    readEnumeration ls' (moveAll f children) = readEnumeration ls children := by
  rcases ht with ht | ht
  · exact h.before.readEnumeration_move (allWithin_children ht)
  · exact h.after.readEnumeration_move (allWithin_children ht)

omit h

-- By induction on the tree. Each of its parts is on one side of the body, where all is read as it
-- was, or holds the body, and then the parts in it are sound.
mutual

theorem gist_readDefinition (h : Replaces ls ls' f start stop inner inner')
    (hinner : isDeleted inner' = isDeleted inner) :
    (t : Tree) → Sound start stop t →
      (readDefinition ls' (t.move f)).map Definition.gist =
        (readDefinition ls t).map Definition.gist
  | token u a b, _ => by rw [move, readDefinition, readDefinition]
  | part p a b children, ht => by
    have hchildren : AllSound start stop children := ht.allSound_children
    rw [move]
    unfold readDefinition
    split
    · exact gist_definitionAmong h hinner children hchildren
    · exact gist_readRecord h hinner true children hchildren
    · exact gist_readRecord h hinner false children hchildren
    · rw [h.readEnumeration_beside (ht.beside (p := .enumeration) rfl rfl)]
    · rfl

theorem gist_definitionAmong (h : Replaces ls ls' f start stop inner inner')
    (hinner : isDeleted inner' = isDeleted inner) :
    (ts : List Tree) → AllSound start stop ts →
      (definitionAmong ls' (moveAll f ts)).map Definition.gist =
        (definitionAmong ls ts).map Definition.gist
  | [], _ => by rw [moveAll, definitionAmong, definitionAmong]
  | t :: ts, hts => by
    obtain ⟨ht, hts⟩ := List.forall_mem_cons.mp hts
    rw [moveAll, definitionAmong, definitionAmong, Option.map_or, Option.map_or,
      gist_readDefinition h hinner t ht, gist_definitionAmong h hinner ts hts]

theorem gist_readRecord (h : Replaces ls ls' f start stop inner inner')
    (hinner : isDeleted inner' = isDeleted inner) (isStruct : Bool) :
    (ts : List Tree) → AllSound start stop ts →
      (readRecord ls' isStruct (moveAll f ts)).map Definition.gist =
        (readRecord ls isStruct ts).map Definition.gist
  | ts, hts => by
    have hmembers := gist_membersAmong h hinner ts hts
    have hrecord : ∀ (o : Option (List Member)) (name : Option String) (bases : List Base),
        (o.map fun members => Definition.record isStruct name bases members).map Definition.gist =
          (o.map gistMembers).map fun members => .record isStruct name bases members := by
      intro o name bases
      cases o with
      | none => rfl
      | some members =>
        rw [Option.map_some, Option.map_some, Option.map_some, Option.map_some, Definition.gist]
    rw [readRecord, readRecord, any_isTemplateName_moveAll]
    split
    · rfl
    · rw [hrecord, hrecord, hmembers, h.className_sound hts, h.bases_sound hts]

theorem gist_membersAmong (h : Replaces ls ls' f start stop inner inner')
    (hinner : isDeleted inner' = isDeleted inner) :
    (ts : List Tree) → AllSound start stop ts →
      (membersAmong ls' (moveAll f ts)).map gistMembers = (membersAmong ls ts).map gistMembers
  | [], _ => by rw [moveAll, membersAmong, membersAmong]
  | token u a b :: ts, hts => by
    obtain ⟨-, hts⟩ := List.forall_mem_cons.mp hts
    simp only [moveAll, move, membersAmong, gist_membersAmong h hinner ts hts]
  | part p a b children :: ts, hts => by
    obtain ⟨ht, hts⟩ := List.forall_mem_cons.mp hts
    have hchildren : AllSound start stop children := ht.allSound_children
    rw [moveAll, move, membersAmong_cons, membersAmong_cons]
    split
    · rw [Option.map_some, Option.map_some, gist_readMembers h hinner 0 children hchildren]
    · exact gist_membersAmong h hinner ts hts

theorem gist_readMembers (h : Replaces ls ls' f start stop inner inner')
    (hinner : isDeleted inner' = isDeleted inner) (depth : Nat) :
    (ts : List Tree) → AllSound start stop ts →
      gistMembers (readMembers ls' depth (moveAll f ts)) = gistMembers (readMembers ls depth ts)
  | [], _ => by rw [moveAll, readMembers, readMembers]
  | t :: ts, hts => by
    obtain ⟨ht, hts⟩ := List.forall_mem_cons.mp hts
    have hrest := gist_readMembers h hinner (t.depthBehind depth) ts hts
    have hmember := gist_readMember h hinner t ht
    rw [moveAll, readMembers, readMembers, depthBehind_move]
    split
    · rw [gistMembers_append, gistMembers_append, gistMembers_toList, gistMembers_toList, hmember,
        hrest]
    · exact hrest

theorem gist_readMember (h : Replaces ls ls' f start stop inner inner')
    (hinner : isDeleted inner' = isDeleted inner) :
    (t : Tree) → Sound start stop t →
      (readMember ls' (t.move f)).map Member.gist = (readMember ls t).map Member.gist
  | token u a b, _ => by rw [move, readMember, readMember]
  | part p a b children, ht => by
    have hchildren : AllSound start stop children := ht.allSound_children
    have hdefinition := gist_definitionAmong h hinner children hchildren
    rw [move]
    unfold readMember
    split
    · rw [h.stretch_beside (ht.beside (p := .access) rfl rfl)]
    · exact h.gist_declaration hinner hdefinition true ht
    · exact h.gist_declaration hinner hdefinition false ht
    · exact h.gist_declaration hinner hdefinition false ht
    · exact h.gist_declaration hinner hdefinition false ht
    · exact h.gist_declaration hinner rfl false ht
    · exact h.gist_declaration hinner rfl false ht
    · exact h.gist_typeAlone hinner hdefinition ht
    · rw [Option.map_some, Option.map_some, Member.gist_typedef, Member.gist_typedef, hdefinition,
        h.specifiersAmong_sound hchildren, h.declarators_sound hchildren]
    · have hside := ht.beside (p := .aliasDeclaration) rfl rfl
      rw [find?_moveAll (isToken_move _), child?_moveAll]
      cases hword : children.find? (Tree.isToken .word) with
      | none => rfl
      | some name =>
        cases hspelling : child? .typeDescriptor children with
        | none => rfl
        | some spelling =>
          have hname := h.text_beside (hside.of_mem (List.mem_of_find?_eq_some hword))
          have htype := h.text_beside (hside.of_mem (List.mem_of_find?_eq_some hspelling))
          simp only [Option.map_some, hname, htype]
    · rfl

end

/-! ### Items -/

mutual

theorem gist_readItem (h : Replaces ls ls' f start stop inner inner')
    (hinner : isDeleted inner' = isDeleted inner) :
    (t : Tree) → Sound start stop t →
      (readItem ls' (t.move f)).map Item.gist = (readItem ls t).map Item.gist
  | token u a b, _ => by rw [move, readItem, readItem]
  | part p a b children, ht => by
    have hchildren : AllSound start stop children := ht.allSound_children
    have hitems := gist_readItems h hinner children hchildren
    have hmember := h.gist_readMember hinner (part p a b children) ht
    rw [move] at hmember ⊢
    unfold readItem
    split
    · rw [Option.map_some, Option.map_some, Item.gist, Item.gist, hitems,
        h.namespaceName_sound hchildren]
    case h_7 | h_8 => rfl
    case h_9 =>
      have hgist : ∀ o : Option Member,
          (o.map Item.member).map Item.gist = (o.map Member.gist).map Item.member := by
        intro o
        cases o with
        | none => rfl
        | some m => rw [Option.map_some, Option.map_some, Option.map_some, Option.map_some, Item.gist]
      rw [hgist, hgist, hmember]
    all_goals rw [Option.map_some, Option.map_some, Item.gist, Item.gist, hitems]

theorem gist_readItems (h : Replaces ls ls' f start stop inner inner')
    (hinner : isDeleted inner' = isDeleted inner) :
    (ts : List Tree) → AllSound start stop ts →
      gistItems (readItems ls' (moveAll f ts)) = gistItems (readItems ls ts)
  | [], _ => by rw [moveAll, readItems, readItems]
  | t :: ts, hts => by
    obtain ⟨ht, hts⟩ := List.forall_mem_cons.mp hts
    rw [moveAll, readItems, readItems, gistItems_append, gistItems_append, gistItems_toList,
      gistItems_toList, gist_readItem h hinner t ht, gist_readItems h hinner ts hts]

end

/-- What is entered does not depend on what stands between the braces, deletions apart. -/
theorem enter_eq (h : Replaces ls ls' f start stop inner inner')
    (hinner : isDeleted inner' = isDeleted inner) {ts : List Tree} (hts : AllSound start stop ts)
    (t : DeclTree) (file : String) :
    enter t file (readItems ls' (moveAll f ts)) = enter t file (readItems ls ts) := by
  rw [← enter_gist, h.gist_readItems hinner ts hts, enter_gist]

/-! ### A deletion in the body -/

/-- A declaration is taken for deleted if the body in it has a deletion. -/
theorem isDeleted_text (h : Replaces ls ls' f start stop inner inner') (hinner : isDeleted inner)
    {p : Part} {a b : Nat} {children : List Tree}
    (ht : Tree.holds start stop (part p a b children)) (definition : Option Definition)
    (isField : Bool) : isDeleted (declarationOf ls definition isField a b children).text := by
  obtain ⟨-, ha, hb, -, hchildren⟩ := holds_part.mp ht
  have hside : IsSide start stop ((bodyStart? children).getD b) := by
    cases hm : bodyStart? children with
    | none => exact .inr hb
    | some m => exact isSide_of_bodyStart? (allSound_of_holdsAmong hchildren) hm
  rcases hside with hside | hside
  · exact ((h.joined_around _ b hside hb).append_left _).isDeleted_eq_true hinner
  · exact ((h.stretch_around a _ ha hside).append_right _).isDeleted_eq_true hinner

/-- A function with a deletion in its body is not entered. -/
theorem enterDeclaration_of_holds (h : Replaces ls ls' f start stop inner inner')
    (hinner : isDeleted inner) {t : Tree} {d : Declaration} (ht : t.holds start stop)
    (hd : readMember ls t = some (.declaration d)) (hfield : d.isField = false) (tree : DeclTree)
    (file : String) (access : Access) (scope : DeclId) :
    enterDeclaration tree file access scope d =
      enterDeclaration tree file access scope d.withoutDeclarators := by
  cases t with
  | token => rw [readMember] at hd; cases hd
  | part p a b children =>
    unfold readMember at hd
    split at hd
    -- A type by itself declares nothing.
    case h_8 =>
      cases hd
      rfl
    case h_10 =>
      split at hd <;> cases hd
    case h_1 | h_9 | h_11 => cases hd
    all_goals
      cases hd
      exact enterDeclaration_of_isDeleted hfield (h.isDeleted_text hinner ht _ _) tree file access scope

end Replaces

end RubyBinding.Header
