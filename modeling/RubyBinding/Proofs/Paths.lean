import Mathlib.Data.List.DropRight
import RubyBinding.Proofs.Walks

/-!
# Qualified names as paths

A qualified name is the path from the global namespace to a declaration, written with `::` between
its segments. It is cut into the same segments again if each of them is non-empty, without colons
and without blanks around it (`segments_intercalate`); and following it leads back to where it comes
from if each scope on the way is the one that a segment enters (`LeadsBack.lookupFrom_root`).
-/

namespace RubyBinding

/-! ## Segments -/

namespace Text

theorem trimEnd_eq_rdropWhile (cs : List Char) : trimEnd cs = cs.rdropWhile isBlank := rfl

/-- A text without blanks at its ends is one that trimming leaves alone. -/
theorem trim_eq_self_iff {cs : List Char} :
    trim cs = cs ↔
      (∀ h : cs ≠ [], isBlank (cs.head h) = false) ∧
        ∀ h : cs ≠ [], isBlank (cs.getLast h) = false := by
  have hstart : trimStart cs = cs ↔ ∀ h : cs ≠ [], isBlank (cs.head h) = false := by
    rw [trimStart, List.dropWhile_eq_self_iff]
    cases cs <;> simp
  have hend : trimEnd cs = cs ↔ ∀ h : cs ≠ [], isBlank (cs.getLast h) = false := by
    rw [trimEnd_eq_rdropWhile, List.rdropWhile_eq_self_iff]
    simp only [Bool.not_eq_true]
  rw [← hstart, ← hend, trim]
  constructor
  · intro h
    -- Each of the two steps can only shorten the text, so neither does.
    have hle : (trimEnd (trimStart cs)).length ≤ (trimStart cs).length :=
      (List.rdropWhile_prefix isBlank _).length_le
    have hle' : (trimStart cs).length ≤ cs.length := length_dropWhile_le isBlank cs
    rw [h] at hle
    have hself : trimStart cs = cs :=
      (List.dropWhile_suffix isBlank).eq_of_length (Nat.le_antisymm hle' hle)
    exact ⟨hself, by rwa [hself] at h⟩
  · rintro ⟨hs, he⟩
    rw [hs, he]

/-- What stands between two texts does not matter for the blanks around all of it. -/
theorem trim_append {as bs : List Char} (hne : as ≠ []) (hne' : bs ≠ []) (ha : trim as = as)
    (hb : trim bs = bs) (between : List Char) :
    trim (as ++ between ++ bs) = as ++ between ++ bs := by
  rw [trim_eq_self_iff] at ha hb ⊢
  constructor
  · intro h
    have hhead : (as ++ between ++ bs).head h = as.head hne := by
      rw [List.head_append_left (List.append_ne_nil_of_left_ne_nil hne _),
        List.head_append_left hne]
    rw [hhead]
    exact ha.1 hne
  · intro h
    rw [List.getLast_append_right hne']
    exact hb.2 hne'

end Text

namespace DeclTree

theorem splitPath_of_not_mem {cs : List Char} (h : ':' ∉ cs) : splitPath cs = [cs] := by
  induction cs with
  | nil => rfl
  | cons c cs ih =>
    obtain ⟨hc, hcs⟩ := not_or.mp (mt List.mem_cons.mpr h)
    rw [splitPath.eq_3 c cs fun _ hcolon _ => hc hcolon.symm, ih hcs, Text.extendHead]

/-- A text is split where the first `::` stands. -/
theorem splitPath_append {cs : List Char} (h : ':' ∉ cs) (rest : List Char) :
    splitPath (cs ++ ':' :: ':' :: rest) = cs :: splitPath rest := by
  induction cs with
  | nil => rw [List.nil_append, splitPath]
  | cons c cs ih =>
    obtain ⟨hc, hcs⟩ := not_or.mp (mt List.mem_cons.mpr h)
    rw [List.cons_append, splitPath.eq_3 c _ fun _ hcolon _ => hc hcolon.symm, ih hcs,
      Text.extendHead]

/-- Whether a name can be a segment of a qualified name. -/
structure IsSegment (name : String) : Prop where
  nonempty : name.toList ≠ []
  noColon : ':' ∉ name.toList
  noBlanks : Text.trim name.toList = name.toList

theorem isSegment_iff {name : String} :
    IsSegment name ↔ (name.toList ≠ [] ∧ ':' ∉ name.toList) ∧ Text.trim name.toList = name.toList :=
  ⟨fun h => ⟨⟨h.nonempty, h.noColon⟩, h.noBlanks⟩, fun ⟨⟨hne, hcolon⟩, hblank⟩ =>
    ⟨hne, hcolon, hblank⟩⟩

instance (name : String) : Decidable (IsSegment name) := decidable_of_iff _ isSegment_iff.symm

variable {names : List String}

/-- A path has no blanks around it, and is not empty. -/
theorem trim_intercalate (hne : names ≠ []) (h : ∀ name ∈ names, IsSegment name) :
    (String.intercalate "::" names).toList ≠ [] ∧
      Text.trim (String.intercalate "::" names).toList =
        (String.intercalate "::" names).toList := by
  induction names with
  | nil => exact absurd rfl hne
  | cons name names ih =>
    obtain ⟨hname, hnames⟩ := List.forall_mem_cons.mp h
    cases names with
    | nil =>
      rw [String.intercalate_singleton]
      exact ⟨hname.nonempty, hname.noBlanks⟩
    | cons next rest =>
      obtain ⟨hne, htrim⟩ := ih (List.cons_ne_nil _ _) hnames
      rw [String.intercalate_cons_of_ne_nil (List.cons_ne_nil _ _), String.toList_append,
        String.toList_append]
      exact ⟨List.append_ne_nil_of_right_ne_nil _ hne,
        Text.trim_append hname.nonempty hne hname.noBlanks htrim _⟩

/-- **A path is cut into the segments that it was put together from.** -/
theorem segments_intercalate (hne : names ≠ []) (h : ∀ name ∈ names, IsSegment name) :
    segments (String.intercalate "::" names).toList = names := by
  rw [segments]
  induction names with
  | nil => exact absurd rfl hne
  | cons name names ih =>
    obtain ⟨hname, hnames⟩ := List.forall_mem_cons.mp h
    cases names with
    | nil =>
      rw [String.intercalate_singleton, splitPath_of_not_mem hname.noColon, List.map_singleton,
        hname.noBlanks, String.ofList_toList]
    | cons next rest =>
      have hsplit : (String.intercalate "::" (name :: next :: rest)).toList =
          name.toList ++ ':' :: ':' :: (String.intercalate "::" (next :: rest)).toList := by
        rw [String.intercalate_cons_of_ne_nil (List.cons_ne_nil _ _), String.toList_append,
          String.toList_append, List.append_assoc]
        rfl
      rw [hsplit, splitPath_append hname.noColon, List.map_cons, ih (List.cons_ne_nil _ _) hnames,
        hname.noBlanks, String.ofList_toList]

/-- A path does not start with `::`. -/
theorem after?_intercalate (hne : names ≠ []) (h : ∀ name ∈ names, IsSegment name) :
    Text.after? [':', ':'] (String.intercalate "::" names).toList = none := by
  obtain ⟨name, rest, rfl⟩ := List.exists_cons_of_ne_nil hne
  obtain ⟨hname, -⟩ := List.forall_mem_cons.mp h
  obtain ⟨c, cs, hcs⟩ := List.exists_cons_of_ne_nil hname.nonempty
  have hc : ':' ≠ c := by
    rintro rfl
    exact hname.noColon (hcs ▸ List.mem_cons_self)
  have hlead : ∃ more, (String.intercalate "::" (name :: rest)).toList = c :: more := by
    cases rest with
    | nil => exact ⟨cs, by rw [String.intercalate_singleton, hcs]⟩
    | cons next rest =>
      rw [String.intercalate_cons_of_ne_nil (List.cons_ne_nil _ _), String.toList_append,
        String.toList_append, hcs]
      exact ⟨_, rfl⟩
  obtain ⟨more, hmore⟩ := hlead
  rw [hmore, Text.after?, if_neg hc]

/-! ## Paths -/

variable {t : DeclTree} {i p : DeclId}

/-- The names on the way from the global namespace to a declaration. -/
def pathTo (t : DeclTree) (i : DeclId) : List String :=
  ((t.scopes i).takeWhile (· != root)).reverse.map fun j => (t.get j).name

theorem qualifiedName_eq_intercalate (hi : i ≠ root) :
    t.qualifiedName i = String.intercalate "::" (t.pathTo i) := if_neg hi

theorem WellFormed.pathTo_root (h : WellFormed t) : t.pathTo root = [] := by
  rw [pathTo, h.scopes_eq, List.takeWhile_cons_of_neg (by simp)]
  rfl

theorem WellFormed.ne_root_of_parent (h : WellFormed t) (hp : t.parent? i = some p) : i ≠ root := by
  rintro rfl
  rw [h.parent_root] at hp
  cases hp

theorem WellFormed.pathTo_of_parent (h : WellFormed t) (hp : t.parent? i = some p) :
    t.pathTo i = t.pathTo p ++ [(t.get i).name] := by
  have hi : i ≠ root := h.ne_root_of_parent hp
  rw [pathTo, h.scopes_eq, hp, Option.elim_some, List.takeWhile_cons_of_pos (by simpa using hi),
    List.reverse_cons, List.map_append]
  rfl

/-- Whether the names on the way to a declaration are segments, and each scope on the way is the one
that its segment enters. -/
structure LeadsBack (t : DeclTree) (i : DeclId) : Prop where
  names : ∀ j ∈ t.scopes i, j ≠ root → IsSegment (t.get j).name
  scopes : ∀ j ∈ t.scopes i, j ≠ i → ∀ p, t.parent? j = some p →
    (t.named p (t.get j).name).find? (fun c => (t.get c).kind.isScope) = some j

theorem LeadsBack.isSegment_of_mem_pathTo (h : LeadsBack t i) :
    ∀ name ∈ t.pathTo i, IsSegment name := by
  intro name hname
  obtain ⟨j, hj, rfl⟩ := List.mem_map.mp hname
  have hj' := List.mem_reverse.mp hj
  refine h.names j ((List.takeWhile_prefix _).mem hj') ?_
  simpa using List.mem_takeWhile_imp hj'

theorem follow_cons_of_ne_nil {scope next : DeclId} {name : String} {rest : List String}
    (hrest : rest ≠ [])
    (hnext : (t.named scope name).find? (fun c => (t.get c).kind.isScope) = some next) :
    t.follow scope (name :: rest) = t.follow next rest := by
  obtain ⟨s, ss, rfl⟩ := List.exists_cons_of_ne_nil hrest
  rw [follow, hnext]
  exact fun h => nomatch h

/-- Following the way to a scope leads to it, from where the rest of the path is followed. -/
theorem WellFormed.follow_pathTo (h : WellFormed t) (hi : i < t.size)
    (hscopes : ∀ j ∈ t.scopes i, ∀ p, t.parent? j = some p →
      (t.named p (t.get j).name).find? (fun c => (t.get c).kind.isScope) = some j)
    {rest : List String} (hrest : rest ≠ []) :
    t.follow root (t.pathTo i ++ rest) = t.follow i rest := by
  induction i using h.outwards.induction generalizing rest with
  | _ i ih =>
    by_cases hroot : i = root
    · rw [hroot, h.pathTo_root, List.nil_append]
    · obtain ⟨p, hlt, hp⟩ := h.parent_lt i hi hroot
      have hout : ∀ j ∈ t.scopes p, j ∈ t.scopes i := fun j hj =>
        h.mem_scopes_iff.mpr (.inr ⟨p, hp, hj⟩)
      rw [h.pathTo_of_parent hp, List.append_assoc, List.singleton_append,
        ih p hp (Nat.lt_trans hlt hi) (fun j hj => hscopes j (hout j hj)) (List.cons_ne_nil _ _)]
      exact follow_cons_of_ne_nil hrest (hscopes i (self_mem_scopes t i) p hp)

/-- **A qualified name leads to the declarations of its last segment in the scope that the
declaration stands in.** -/
theorem WellFormed.lookupFrom_root (h : WellFormed t) (hp : t.parent? i = some p)
    (hback : LeadsBack t i) :
    t.lookupFrom root (t.qualifiedName i).toList = t.named p (t.get i).name := by
  have hi : i ≠ root := h.ne_root_of_parent hp
  have hpath := h.pathTo_of_parent hp
  have hne : t.pathTo i ≠ [] := by simp [hpath]
  obtain ⟨hnonempty, htrim⟩ := trim_intercalate hne hback.isSegment_of_mem_pathTo
  have hsegments := segments_intercalate hne hback.isSegment_of_mem_pathTo
  rw [← qualifiedName_eq_intercalate hi] at hnonempty htrim hsegments
  have hlt : p < i := h.parent_lt_of_eq hp
  have hscopes : ∀ j ∈ t.scopes p, ∀ q, t.parent? j = some q →
      (t.named q (t.get j).name).find? (fun c => (t.get c).kind.isScope) = some j := by
    intro j hj
    refine hback.scopes j (h.mem_scopes_iff.mpr (.inr ⟨p, hp, hj⟩)) ?_
    exact Nat.ne_of_lt (Nat.lt_of_le_of_lt (h.le_of_mem_scopes hj) hlt)
  rw [lookupFrom, htrim, hsegments, hpath,
    h.follow_pathTo (Nat.lt_trans hlt (lt_size_of_parent hp)) hscopes (List.cons_ne_nil _ _)]
  rw [if_neg (by simpa using hnonempty), follow]

end DeclTree

end RubyBinding
