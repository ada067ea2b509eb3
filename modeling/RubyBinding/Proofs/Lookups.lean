import RubyBinding.Proofs.Meanings

/-!
# Looking up qualified names

Printing a qualified name walks from a declaration towards the global namespace, looking one up
walks away from it. The two undo each other: a path leads only to declarations whose names on the
way to them are its segments (`WellFormed.pathTo_of_mem_follow`), whatever the tree; and the name of
a declaration that its scopes lead to finds it, with the others of its name
(`WellFormed.lookupAll_qualifiedName`).
-/

namespace RubyBinding

/-- Nothing is dropped from a text that does not start with `::`. -/
theorem dropGlobal_eq_self {cs : List Char} (h : Text.after? [':', ':'] cs = none) :
    dropGlobal cs = cs := by
  fun_cases dropGlobal cs with
  | case1 r => simp [Text.after?] at h
  | case2 hne => rfl

namespace DeclTree

variable {t : DeclTree} {i p scope : DeclId} {path : List String}

theorem WellFormed.mem_named (h : WellFormed t) {name : String} :
    i ∈ t.named scope name ↔ t.parent? i = some scope ∧ (t.get i).name = name := by
  rw [named, List.mem_filter, h.mem_children, beq_iff_eq]

/-- **Whatever a path leads to from a scope, the names on the way to it are those on the way to the
scope and the segments of the path.** -/
theorem WellFormed.pathTo_of_mem_follow (h : WellFormed t) (hne : path ≠ [])
    (hi : i ∈ t.follow scope path) : t.pathTo i = t.pathTo scope ++ path := by
  -- The induction is on the segments; the scope moves inwards with each of them.
  fun_induction follow t scope path with
  | case1 scope => exact absurd rfl hne
  | case2 scope last =>
    obtain ⟨hp, hname⟩ := h.mem_named.mp hi
    rw [h.pathTo_of_parent hp, hname]
  | case3 scope s rest hrest next hnext ih =>
    obtain ⟨hp, hname⟩ := h.mem_named.mp (List.mem_of_find?_eq_some hnext)
    rw [ih (fun hnil => hrest hnil) hi, h.pathTo_of_parent hp, hname, List.append_assoc,
      List.singleton_append]
  | case4 scope s rest hrest hnext => cases hi

theorem segments_ne_nil (path : List Char) : segments path ≠ [] := by
  have hsplit : splitPath path ≠ [] := by
    fun_induction splitPath path with
    | case1 => simp
    | case2 r ih => simp
    | case3 c r hne ih =>
      obtain ⟨s, ss, hs⟩ := List.exists_cons_of_ne_nil ih
      simp [hs, Text.extendHead]
  simpa [segments] using hsplit

/-- The names on the way to a declaration that a text leads to are the segments of the text, and
following them leads to it. -/
theorem WellFormed.pathTo_of_mem_lookupFrom (h : WellFormed t) {text : List Char}
    (htext : Text.trim text ≠ []) (hi : i ∈ t.lookupFrom root text) :
    t.pathTo i = segments (Text.trim text) ∧ i ∈ t.follow root (t.pathTo i) := by
  have hfollow : i ∈ t.follow root (segments (Text.trim text)) := by
    simpa [lookupFrom, htext] using hi
  have hpath := h.pathTo_of_mem_follow (segments_ne_nil _) hfollow
  rw [h.pathTo_root, List.nil_append] at hpath
  exact ⟨hpath, hpath ▸ hfollow⟩

/-- A declaration that a text leads to is spelled by the segments of the text. -/
theorem WellFormed.qualifiedName_of_mem_lookupFrom (h : WellFormed t) {text : List Char}
    (htext : Text.trim text ≠ []) (hi : i ∈ t.lookupFrom root text) :
    t.qualifiedName i = String.intercalate "::" (segments (Text.trim text)) := by
  obtain ⟨hpath, -⟩ := h.pathTo_of_mem_lookupFrom htext hi
  have hne : i ≠ root := by
    rintro rfl
    rw [h.pathTo_root] at hpath
    exact segments_ne_nil _ hpath.symm
  rw [qualifiedName_eq_intercalate hne, hpath]

/-- **The qualified name of a declaration leads to the members of its scope that have its name**,
with `::` in front of it or without. -/
theorem WellFormed.lookupAll_eq_named (h : WellFormed t) (hp : t.parent? i = some p)
    (hback : LeadsBack t i) :
    t.lookupAll (t.qualifiedName i) = t.named p (t.get i).name ∧
      t.lookupAll ("::" ++ t.qualifiedName i) = t.named p (t.get i).name := by
  have hpath : t.pathTo i ≠ [] := by simp [h.pathTo_of_parent hp]
  have hdrop : dropGlobal (t.qualifiedName i).toList = (t.qualifiedName i).toList := by
    rw [qualifiedName_eq_intercalate (h.ne_root_of_parent hp)]
    exact dropGlobal_eq_self (after?_intercalate hpath hback.isSegment_of_mem_pathTo)
  have hglobal : dropGlobal ("::" ++ t.qualifiedName i).toList = (t.qualifiedName i).toList := by
    rw [String.toList_append]
    exact hdrop
  constructor
  · rw [lookupAll, hdrop, h.lookupFrom_root hp hback]
  · rw [lookupAll, hglobal, h.lookupFrom_root hp hback]

/-- **Qualified names and lookup undo each other.** A declaration whose scopes lead to it is found
by its qualified name, along with the other members of its scope that have its name and with nothing
else, in the order of their declaration; and what any text leads to is spelled by that text, up to
what is dropped at its start and to the blanks around its segments. -/
theorem WellFormed.lookupAll_qualifiedName (h : WellFormed t) :
    (∀ i ∈ t.ids, i ≠ root → LeadsBack t i →
      t.lookupAll (t.qualifiedName i) =
        ((t.children (t.scopeOf i)).filter fun c => (t.get c).name == (t.get i).name) ∧
      t.lookupAll ("::" ++ t.qualifiedName i) = t.lookupAll (t.qualifiedName i) ∧
      (t.lookupAll (t.qualifiedName i)).Pairwise (· < ·) ∧
      i ∈ t.lookupAll (t.qualifiedName i)) ∧
    ∀ text : String, Text.trim (dropGlobal text.toList) ≠ [] → ∀ i ∈ t.lookupAll text,
      t.qualifiedName i =
        String.intercalate "::" (segments (Text.trim (dropGlobal text.toList))) := by
  constructor
  · intro i hi hne hback
    obtain ⟨p, -, hp⟩ := h.parent_lt i (List.mem_range.mp hi) hne
    obtain ⟨hplain, hglobal⟩ := h.lookupAll_eq_named hp hback
    have hscope : t.scopeOf i = p := by rw [scopeOf, hp, Option.getD_some]
    rw [hglobal, hplain, hscope]
    refine ⟨rfl, rfl, (h.children_sorted p).filter _, ?_⟩
    exact h.mem_named.mpr ⟨hp, rfl⟩
  · intro text htext i hi
    exact h.qualifiedName_of_mem_lookupFrom htext hi

/-- A class with two methods of one name, in a namespace that has a function of the name of the
class as well. -/
def overloadTree : DeclTree :=
  let t := (DeclTree.empty.add root "geo" .nspace).2
  let t := (t.add 1 "Shape" (.function (.named "int") [])).2
  let t := (t.add 1 "Shape" (.record false [])).2
  let t := (t.add 3 "area" (.method (.named "int") [] {})).2
  let t := (t.add 3 "scale" (.method (.named "void") [] {})).2
  (t.add 3 "area" (.method (.named "int") [⟨none, .named "bool"⟩] {})).2

theorem overloadTree_built : overloadTree.Built :=
  .add (.add (.add (.add (.add (.add .empty (by decide) _ _) (by decide) _ _) (by decide) _ _)
    (by decide) _ _) (by decide) _ _) (by decide) _ _

/-- The function in front of the class does not hide it, and both methods are found. -/
theorem lookupAll_overloadTree :
    overloadTree.WellFormed ∧ LeadsBack overloadTree 6 ∧
      overloadTree.qualifiedName 6 = "geo::Shape::area" ∧
      overloadTree.lookupAll "geo::Shape::area" = [4, 6] ∧
      overloadTree.lookupAll "::geo::Shape::area" = [4, 6] ∧
      overloadTree.qualifiedName 4 =
        String.intercalate "::"
          (segments (Text.trim (dropGlobal " geo :: Shape::area".toList))) := by
  have hw := overloadTree_built.wellFormed
  have hname : overloadTree.qualifiedName 6 = "geo::Shape::area" := by cbv
  have hnavigable : overloadTree.Navigable := by decide
  have hback : LeadsBack overloadTree 6 := hnavigable.leadsBack hw (by decide)
  obtain ⟨hfind, hspell⟩ := hw.lookupAll_qualifiedName
  obtain ⟨hplain, hglobal, -, -⟩ := hfind 6 (by decide) (by decide) hback
  have hfound : overloadTree.lookupAll (overloadTree.qualifiedName 6) = [4, 6] := by
    rw [hplain]
    cbv
  refine ⟨hw, hback, hname, ?_, ?_, ?_⟩
  · rw [← hname, hfound]
  · rw [← hfound, ← hglobal, hname]
    rfl
  · refine hspell " geo :: Shape::area" (by decide) 4 ?_
    have hblanks : overloadTree.lookupAll " geo :: Shape::area" = [4, 6] := by cbv
    rw [hblanks]
    exact List.mem_cons_self

end DeclTree

end RubyBinding
