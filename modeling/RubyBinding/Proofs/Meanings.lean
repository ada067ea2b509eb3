import RubyBinding.Proofs.Paths
import RubyBinding.Proofs.Spellings

/-!
# What resolved names mean

Generated code stands in the global namespace, so a name that was written in some scope is replaced
there. In a tree in which qualified names lead back to types (`Navigable`), nothing changes its
meaning by this: what a name denotes is denoted by the name that replaces it, or its only typedef
is, and a name that denotes nothing is kept and goes on to denote nothing (`Respells`). Everything
else about a type stays as it is, and resolving a second time changes nothing
(`Library.resolve_respells`).
-/

namespace RubyBinding

/-! ## Types that differ in names -/

namespace Ty

mutual

/-- Types of one shape, whose names are related by `R` place by place. -/
inductive Matches (R : String → String → Prop) : Ty → Ty → Prop
  | void : Matches R void void
  | bool : Matches R bool bool
  | float : Matches R float float
  | double : Matches R double double
  | integer (w : Width) (isSigned : Bool) : Matches R (integer w isSigned) (integer w isSigned)
  | pointer {t u : Ty} (h : Matches R t u) (isConst : Bool) :
      Matches R (pointer t isConst) (pointer u isConst)
  | reference {t u : Ty} (h : Matches R t u) (isConst isRvalue : Bool) :
      Matches R (reference t isConst isRvalue) (reference u isConst isRvalue)
  | named {m n : String} (h : R m n) : Matches R (named m) (named n)
  | function {t u : Ty} {ts us : List Ty} (h : Matches R t u) (hs : MatchesAll R ts us) :
      Matches R (function t ts) (function u us)

inductive MatchesAll (R : String → String → Prop) : List Ty → List Ty → Prop
  | nil : MatchesAll R [] []
  | cons {t u : Ty} {ts us : List Ty} (h : Matches R t u) (hs : MatchesAll R ts us) :
      MatchesAll R (t :: ts) (u :: us)

end

variable {R : String → String → Prop} {f : String → String}

mutual

/-- Changing the names of a type changes nothing else. -/
theorem matches_mapNames (hf : ∀ n, R n (f n)) : ∀ t : Ty, Matches R t (t.mapNames f)
  | .void => .void
  | .bool => .bool
  | .float => .float
  | .double => .double
  | .integer w isSigned => .integer w isSigned
  | .pointer t isConst => .pointer (matches_mapNames hf t) isConst
  | .reference t isConst isRvalue => .reference (matches_mapNames hf t) isConst isRvalue
  | .named n => .named (hf n)
  | .function t ts => .function (matches_mapNames hf t) (matchesAll_mapNamesList hf ts)

theorem matchesAll_mapNamesList (hf : ∀ n, R n (f n)) :
    ∀ ts : List Ty, MatchesAll R ts (mapNamesList f ts)
  | [] => .nil
  | t :: ts => .cons (matches_mapNames hf t) (matchesAll_mapNamesList hf ts)

end

mutual

/-- Changing names leaves a type alone if it leaves all those alone that the type can have. -/
theorem Matches.mapNames_eq (hf : ∀ m n, R m n → f n = n) {t u : Ty} (h : Matches R t u) :
    u.mapNames f = u := by
  cases h with
  | void => rfl
  | bool => rfl
  | float => rfl
  | double => rfl
  | integer w isSigned => rfl
  | pointer h isConst => rw [mapNames, h.mapNames_eq hf]
  | reference h isConst isRvalue => rw [mapNames, h.mapNames_eq hf]
  | named h => rw [mapNames, hf _ _ h]
  | function h hs => rw [mapNames, h.mapNames_eq hf, hs.mapNamesList_eq hf]

theorem MatchesAll.mapNamesList_eq (hf : ∀ m n, R m n → f n = n) {ts us : List Ty}
    (h : MatchesAll R ts us) : mapNamesList f us = us := by
  cases h with
  | nil => rfl
  | cons h hs => rw [mapNamesList, h.mapNames_eq hf, hs.mapNamesList_eq hf]

end

end Ty

/-! ## Trees in which names lead back -/

namespace DeclTree

variable {t : DeclTree} {i p scope : DeclId} {name : String}

/-- Whether qualified names lead back to the types that they are the names of: all names are
segments, no scope has two types of one name, and what has members is the first namespace, class or
enumeration of its name. -/
structure Navigable (t : DeclTree) : Prop where
  names : ∀ i ∈ t.ids, i ≠ root → IsSegment (t.get i).name
  types : ∀ p ∈ t.ids, ∀ i ∈ t.children p, ∀ j ∈ t.children p, (t.get i).kind.isType →
    (t.get j).kind.isType → (t.get i).name = (t.get j).name → i = j
  scopes : ∀ i ∈ t.ids, i ≠ root → t.children i ≠ [] →
    (t.named (t.scopeOf i) (t.get i).name).find? (fun c => (t.get c).kind.isScope) = some i

theorem navigable_iff : t.Navigable ↔
    (∀ i ∈ t.ids, i ≠ root → IsSegment (t.get i).name) ∧
    (∀ p ∈ t.ids, ∀ i ∈ t.children p, ∀ j ∈ t.children p, (t.get i).kind.isType →
      (t.get j).kind.isType → (t.get i).name = (t.get j).name → i = j) ∧
    (∀ i ∈ t.ids, i ≠ root → t.children i ≠ [] →
      (t.named (t.scopeOf i) (t.get i).name).find? (fun c => (t.get c).kind.isScope) = some i) :=
  ⟨fun h => ⟨h.names, h.types, h.scopes⟩, fun ⟨hn, ht, hs⟩ => ⟨hn, ht, hs⟩⟩

instance (t : DeclTree) : Decidable t.Navigable := decidable_of_iff _ navigable_iff.symm

theorem mem_ids_of_isType (hi : (t.get i).kind.isType) : i ∈ t.ids := by
  refine List.mem_range.mpr (Nat.lt_of_not_le fun hle => ?_)
  rw [get_of_size_le hle] at hi
  cases hi

/-- Types stand in a scope. -/
theorem WellFormed.exists_parent_of_isType (h : WellFormed t) (hi : (t.get i).kind.isType) :
    ∃ p, t.parent? i = some p := by
  have hne : i ≠ root := by
    rintro rfl
    have hroot := h.root_isNamespace
    unfold Decl.isNamespace at hroot
    cases hkind : (t.get root).kind with
    | nspace => rw [hkind] at hi; cases hi
    | _ => rw [hkind] at hroot; cases hroot
  obtain ⟨p, -, hp⟩ := h.parent_lt i (List.mem_range.mp (mem_ids_of_isType hi)) hne
  exact ⟨p, hp⟩

/-- Where names lead back, they do so from every declaration. -/
theorem Navigable.leadsBack (hn : t.Navigable) (h : WellFormed t) (hi : i < t.size) :
    LeadsBack t i where
  names := by
    intro j hj hne
    exact hn.names j (List.mem_range.mpr (Nat.lt_of_le_of_lt (h.le_of_mem_scopes hj) hi)) hne
  scopes := by
    intro j hj hne p hp
    have hlt : j < t.size := lt_size_of_parent hp
    -- A scope around the declaration, and not the declaration itself, has a member.
    have hmember : ∃ c, t.parent? c = some j := by
      induction i using h.outwards.induction with
      | _ i ih =>
        rcases h.mem_scopes_iff.mp hj with rfl | ⟨q, hq, hjq⟩
        · exact absurd rfl hne
        · by_cases hjq' : j = q
          · exact ⟨i, hjq' ▸ hq⟩
          · exact ih q hq (Nat.lt_trans (h.parent_lt_of_eq hq) hi) hjq hjq'
    obtain ⟨c, hc⟩ := hmember
    have hfind := hn.scopes j (List.mem_range.mpr hlt) (h.ne_root_of_parent hp)
      (List.ne_nil_of_mem ((h.mem_children j c).mpr hc))
    rwa [scopeOf, hp, Option.getD_some] at hfind

/-- In the global namespace, a relative name denotes what it leads to there. -/
theorem WellFormed.resolve?_root_of_relative (h : WellFormed t)
    (hrel : Text.after? [':', ':'] name.toList = none) :
    t.resolve? root name =
      (t.lookupFrom root name.toList).find? fun c => (t.get c).kind.isType := by
  rw [resolve?, hrel, h.scopes_eq, h.parent_root]
  simp only [Option.elim_none, List.findSome?_cons, List.findSome?_nil]
  split
  next hfind => exact hfind.symm
  next hfind => exact hfind.symm

/-- **The qualified name of a type denotes that type** in the global namespace. -/
theorem Navigable.resolve?_qualifiedName (hn : t.Navigable) (h : WellFormed t)
    (hi : (t.get i).kind.isType) : t.resolve? root (t.qualifiedName i) = some i := by
  obtain ⟨p, hp⟩ := h.exists_parent_of_isType hi
  have hback : LeadsBack t i := hn.leadsBack h (lt_size_of_parent hp)
  have hrel : Text.after? [':', ':'] (t.qualifiedName i).toList = none := by
    rw [qualifiedName_eq_intercalate (h.ne_root_of_parent hp)]
    refine after?_intercalate ?_ hback.isSegment_of_mem_pathTo
    simp [h.pathTo_of_parent hp]
  have hpsize : p ∈ t.ids :=
    List.mem_range.mpr (Nat.lt_trans (h.parent_lt_of_eq hp) (lt_size_of_parent hp))
  have hchild : i ∈ t.children p := (h.mem_children p i).mpr hp
  have hmem : i ∈ t.named p (t.get i).name := List.mem_filter.mpr ⟨hchild, beq_self_eq_true _⟩
  rw [h.resolve?_root_of_relative hrel, h.lookupFrom_root hp hback]
  cases hfind : (t.named p (t.get i).name).find? fun c => (t.get c).kind.isType with
  | none => exact absurd hi (List.find?_eq_none.mp hfind i hmem)
  | some j =>
    -- There is one type of the name in the scope only.
    have hj := List.mem_filter.mp (List.mem_of_find?_eq_some hfind)
    have htype := List.find?_some hfind
    rw [hn.types p hpsize j hj.1 i hchild htype hi (beq_iff_eq.mp hj.2)]

/-- What a name does not denote in a scope it does not denote in the global namespace. -/
theorem WellFormed.resolve?_root_eq_none (h : WellFormed t) (hs : scope < t.size)
    (hnone : t.resolve? scope name = none) : t.resolve? root name = none := by
  unfold resolve? at hnone ⊢
  split
  next rest hrest => rwa [hrest] at hnone
  next hrel =>
    rw [hrel] at hnone
    have hroot := List.findSome?_eq_none_iff.mp hnone root (h.root_mem_scopes hs)
    rw [h.scopes_eq, h.parent_root]
    simp only [Option.elim_none, List.findSome?_cons, List.findSome?_nil, hroot]

end DeclTree

/-! ## Resolving -/

namespace Library

variable {lib : Library} {scope d e : DeclId} {written spelled : String}

/-- Whether a name that was written in a scope is replaced by one that means the same in the global
namespace. -/
inductive Respells (lib : Library) (scope : DeclId) : String → String → Prop
  /-- What the name denotes is denoted by its qualified name, -/
  | own {written : String} {d : DeclId} (hd : lib.tree.resolve? scope written = some d)
      (hnone : lib.humanizingTypedef? d = none)
      (hroot : lib.tree.resolve? DeclTree.root (lib.tree.qualifiedName d) = some d) :
      Respells lib scope written (lib.tree.qualifiedName d)
  /-- or its only typedef is, if it is a class that gives way to that. -/
  | typedef {written : String} {d e : DeclId} (hd : lib.tree.resolve? scope written = some d)
      (he : lib.humanizingTypedef? d = some e) (honly : lib.tree.typedefsOf d = [e])
      (hroot : lib.tree.resolve? DeclTree.root (lib.tree.qualifiedName e) = some e) :
      Respells lib scope written (lib.tree.qualifiedName e)
  /-- A name that denotes nothing is kept, and denotes nothing there either. -/
  | unknown {written : String} (hnone : lib.tree.resolve? scope written = none)
      (hroot : lib.tree.resolve? DeclTree.root written = none) : Respells lib scope written written

theorem resolveName_of_some (hd : lib.tree.resolve? scope written = some d) :
    lib.resolveName scope written = lib.classType d := by
  rw [resolveName, hd]

theorem resolveName_of_none (hd : lib.tree.resolve? scope written = none) :
    lib.resolveName scope written = written := by
  rw [resolveName, hd]

theorem classType_of_none (h : lib.humanizingTypedef? d = none) :
    lib.classType d = lib.tree.qualifiedName d := by
  rw [classType, h, Option.getD_none]

theorem classType_of_some (h : lib.humanizingTypedef? d = some e) :
    lib.classType d = lib.tree.qualifiedName e := by
  rw [classType, h, Option.getD_some]

theorem typedefsOf_of_humanizingTypedef? (h : lib.humanizingTypedef? d = some e) :
    lib.tree.typedefsOf d = [e] := by
  have hrecord : (lib.tree.get d).isRecord := by
    by_contra hnot
    rw [humanizingTypedef?, Bool.eq_false_iff.mpr hnot] at h
    cases h
  exact ((humanizingTypedef?_eq_some_iff hrecord).mp h).1

theorem typedefTarget?_of_typedefsOf (hw : lib.tree.WellFormed)
    (h : lib.tree.typedefsOf d = [e]) : lib.tree.typedefTarget? e = some d :=
  (mem_typedefsOf hw).mp (h ▸ List.mem_cons_self)

/-- A typedef does not give way to another one. -/
theorem classType_of_typedefTarget? (h : lib.tree.typedefTarget? e = some d) :
    lib.classType e = lib.tree.qualifiedName e := by
  refine classType_of_not_isRecord fun hrecord => ?_
  rw [typedefTarget?_eq_none_of_isRecord hrecord] at h
  cases h

/-- In the global namespace, a name that was replaced is kept. -/
theorem Respells.resolveName_root (hw : lib.tree.WellFormed)
    (h : lib.Respells scope written spelled) :
    lib.resolveName DeclTree.root spelled = spelled := by
  cases h with
  | own hd hnone hroot => rw [resolveName_of_some hroot, classType_of_none hnone]
  | typedef hd he honly hroot =>
    rw [resolveName_of_some hroot,
      classType_of_typedefTarget? (typedefTarget?_of_typedefsOf hw honly)]
  | unknown hnone hroot => exact resolveName_of_none hroot

/-- **Every name is replaced by one that means the same.** -/
theorem respells_resolveName (hw : lib.tree.WellFormed) (hn : lib.tree.Navigable)
    (hs : scope < lib.tree.size) (written : String) :
    lib.Respells scope written (lib.resolveName scope written) := by
  cases hd : lib.tree.resolve? scope written with
  | none =>
    rw [resolveName_of_none hd]
    exact .unknown hd (hw.resolve?_root_eq_none hs hd)
  | some d =>
    rw [resolveName_of_some hd]
    cases he : lib.humanizingTypedef? d with
    | none =>
      rw [classType_of_none he]
      exact .own hd he (hn.resolve?_qualifiedName hw (DeclTree.isType_of_resolve? hd))
    | some e =>
      have honly := typedefsOf_of_humanizingTypedef? he
      have htype := isType_of_typedefTarget? (typedefTarget?_of_typedefsOf hw honly)
      rw [classType_of_some he]
      exact .typedef hd he honly (hn.resolve?_qualifiedName hw htype)

/-- Resolving keeps what a type means, and resolving a second time changes nothing: its names are
replaced by names that mean the same in the global namespace, and all else stays as it is. -/
theorem resolve_respells (hw : lib.tree.WellFormed) (hn : lib.tree.Navigable)
    (hs : scope < lib.tree.size) (t : Ty) :
    t.Matches (lib.Respells scope) (lib.resolve scope t) ∧
      lib.resolve DeclTree.root (lib.resolve scope t) = lib.resolve scope t := by
  have hmatches : t.Matches (lib.Respells scope) (lib.resolve scope t) :=
    Ty.matches_mapNames (respells_resolveName hw hn hs) t
  exact ⟨hmatches, hmatches.mapNames_eq fun _ _ h => h.resolveName_root hw⟩

/-- A class with a typedef, and a class with a class in it, in one namespace. -/
def matrixTree : DeclTree :=
  let t := (DeclTree.empty.add DeclTree.root "math" .nspace).2
  let t := (t.add 1 "VectorImpl" (.record false [])).2
  let t := (t.add 1 "Vector" (.typedef (.named "VectorImpl"))).2
  let t := (t.add 1 "Matrix" (.record false [])).2
  (t.add 4 "Row" (.record true [])).2

/-- A callback that takes a vector and a text, and returns a row. -/
def rowCallback (row vector : String) : Ty :=
  .pointer (.function (.reference (.named row) true false)
    [.pointer (.named vector) true, .named "std::string"]) false

theorem matrixTree_built : matrixTree.Built :=
  .add (.add (.add (.add (.add .empty (by decide) _ _) (by decide) _ _) (by decide) _ _) (by decide)
    _ _) (by decide) _ _

/-- Written in the class for matrices, its names are relative to several scopes. -/
theorem resolve_respells_rowCallback :
    matrixTree.WellFormed ∧ matrixTree.Navigable ∧ 4 < matrixTree.size ∧
      Library.resolve { tree := matrixTree } 4 (rowCallback "Row" "math::VectorImpl") =
        rowCallback "math::Matrix::Row" "math::Vector" ∧
      (rowCallback "Row" "math::VectorImpl").Matches (Respells { tree := matrixTree } 4)
        (rowCallback "math::Matrix::Row" "math::Vector") := by
  have hn : matrixTree.Navigable := by decide
  have hresolved : Library.resolve { tree := matrixTree } 4 (rowCallback "Row" "math::VectorImpl") =
      rowCallback "math::Matrix::Row" "math::Vector" := by cbv
  have hrespells : (rowCallback "Row" "math::VectorImpl").Matches
      (Respells { tree := matrixTree } 4)
      (Library.resolve { tree := matrixTree } 4 (rowCallback "Row" "math::VectorImpl")) :=
    (resolve_respells matrixTree_built.wellFormed hn (by decide) _).1
  rw [hresolved] at hrespells
  exact ⟨matrixTree_built.wellFormed, hn, by decide, hresolved, hrespells⟩

end Library

end RubyBinding
