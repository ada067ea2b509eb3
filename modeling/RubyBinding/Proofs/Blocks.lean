import RubyBinding.Plan.Layout
import RubyBinding.Proofs.Order

/-!
# Blocks of regions

The block of a region is laid out if the depths of its parts can be told and the parts themselves
can be laid out (`block_region_eq_ok_iff`); it is then the body of the region with the lines of the
parts spliced in, in the order of registration. The first line of a body stays the first line of the
block, unless it is a closing brace (`head?_fst_splitClosing`).
-/

namespace RubyBinding

namespace Plan

variable {lib : Library} {r : Region} {parts : List Plan} {p : Plan}

/-! ## Blocks as lines -/

/-- The lines of a plan's block; none if the plan cannot be laid out. -/
def lines (lib : Library) (p : Plan) : List String := (p.block lib).toOption.getD []

/-- What a part is sorted by. -/
def rank (lib : Library) (p : Plan) : Nat := lib.rankOf p.node

/-- Whether the depth of a plan's declaration can be told, and the plan can be laid out. -/
def IsLaidOut (lib : Library) (p : Plan) : Prop :=
  (∃ n, lib.rank p.node = .ok n) ∧ ∃ ls, p.block lib = .ok ls

theorem lines_of_block {ls : List String} (h : p.block lib = .ok ls) : p.lines lib = ls := by
  rw [lines, h]
  rfl

theorem blocks_eq_map (lib : Library) (ps : List Plan) :
    blocks lib ps = ps.map fun p => (p.node, p.block lib) := by
  induction ps with
  | nil => rfl
  | cons p ps ih => rw [blocks, ih, List.map_cons]

/-- The lines of a region's parts, in the order of registration. -/
def partLines (lib : Library) (parts : List Plan) : List String :=
  (positions (rank lib) parts).flatMap fun x => x.1.lines lib

/-- Sorting blocks by depth is sorting parts by depth. -/
theorem positions_blocks (lib : Library) (parts : List Plan) :
    (positions (fun b => lib.rankOf b.1) (blocks lib parts)).map Prod.fst =
      ((positions (rank lib) parts).map Prod.fst).map fun p => (p.node, p.block lib) := by
  rw [blocks_eq_map, positions_map, List.map_map, List.map_map]
  rfl

theorem block_eq_ok_iff {ls : List String} :
    p.block lib = .ok ls ↔ (∃ ls, p.block lib = .ok ls) ∧ ls = p.lines lib := by
  constructor
  · intro h
    exact ⟨⟨ls, h⟩, (lines_of_block h).symm⟩
  · rintro ⟨⟨ls, h⟩, rfl⟩
    rw [lines_of_block h]
    exact h

/-- **The block of a region.** -/
theorem block_region_eq_ok_iff {ls : List String} :
    (region r parts).block lib = .ok ls ↔
      (∀ p ∈ parts, p.IsLaidOut lib) ∧ ls = splice r.bodyLines (partLines lib parts) := by
  have hmem : ∀ p, p ∈ (positions (rank lib) parts).map Prod.fst ↔ p ∈ parts := fun p =>
    mem_map_fst_positions (rank lib)
  have hflat : (((positions (rank lib) parts).map Prod.fst).map (lines lib)).flatten =
      partLines lib parts := by
    rw [partLines, List.flatMap_def, List.map_map]
    rfl
  -- The blocks are made before they are sorted; whether they could be made is asked afterwards.
  have hblocks : ∀ {ps : List Plan} {bs : List (List String)},
      (ps.map fun p => (p.node, p.block lib)).mapM Prod.snd = .ok bs ↔
        (∀ p ∈ ps, ∃ ls, p.block lib = .ok ls) ∧ bs = ps.map (lines lib) := by
    intro ps bs
    rw [mapM_eq_ok_iff, List.forall₂_map_left_iff, ← mapM_eq_ok_iff]
    exact mapM_eq_ok_iff_map fun p ls => block_eq_ok_iff
  rw [block, bind_eq_ok_iff]
  constructor
  · rintro ⟨sorted, hsorted, h⟩
    obtain ⟨hranks, rfl⟩ := Library.byDepth_eq_ok_iff.mp hsorted
    rw [positions_blocks, bind_eq_ok_iff] at h
    obtain ⟨bs, hbs, h⟩ := h
    obtain ⟨hall, rfl⟩ := hblocks.mp hbs
    cases h
    refine ⟨?_, by rw [hflat]⟩
    intro p hp
    refine ⟨hranks (p.node, p.block lib) ?_, hall p ((hmem p).mpr hp)⟩
    rw [blocks_eq_map]
    exact List.mem_map.mpr ⟨p, hp, rfl⟩
  · rintro ⟨hall, rfl⟩
    refine ⟨_, Library.byDepth_eq_ok_iff.mpr ⟨?_, rfl⟩, ?_⟩
    · intro b hb
      rw [blocks_eq_map] at hb
      obtain ⟨p, hp, rfl⟩ := List.mem_map.mp hb
      exact (hall p hp).1
    · rw [positions_blocks, bind_eq_ok_iff]
      refine ⟨_, hblocks.mpr ⟨?_, rfl⟩, ?_⟩
      · intro p hp
        exact (hall p ((hmem p).mp hp)).2
      · rw [hflat]
        rfl

mutual

/-- If all depths can be told, everything can be laid out. -/
theorem isLaidOut_of_depth (h : ∀ i, ∃ n, lib.depth i = .ok n) (p : Plan) : p.IsLaidOut lib := by
  have hrank : ∀ node, ∃ n, lib.rank node = .ok n := by
    intro node
    cases node with
    | none => exact ⟨0, rfl⟩
    | some i => exact h i
  cases p with
  | code node code => exact ⟨hrank node, code, rfl⟩
  | region r parts =>
    refine ⟨hrank r.node, _, block_region_eq_ok_iff.mpr ⟨?_, rfl⟩⟩
    exact forall_isLaidOut_of_depth h parts

theorem forall_isLaidOut_of_depth (h : ∀ i, ∃ n, lib.depth i = .ok n) (ps : List Plan) :
    ∀ p ∈ ps, p.IsLaidOut lib := by
  cases ps with
  | nil => exact List.forall_mem_nil _
  | cons p ps =>
    exact List.forall_mem_cons.mpr ⟨isLaidOut_of_depth h p, forall_isLaidOut_of_depth h ps⟩

end

/-! ## The first line of a block -/

theorem splice_eq (body parts : List String) :
    splice body parts = (splitClosing body).1 ++ parts ++ (splitClosing body).2 := rfl

/-- What stays at the end of a body is the end of the body. -/
theorem splitClosing_append (body : List String) :
    (splitClosing body).1 ++ (splitClosing body).2 = body := by
  unfold splitClosing
  dsimp only
  split
  · next last before hdrop =>
    split
    · have hreverse := List.takeWhile_append_dropWhile
        (p := fun l => (Text.trimmed l).isEmpty) (l := body.reverse)
      rw [hdrop] at hreverse
      have hbody := congrArg List.reverse hreverse
      rw [List.reverse_append, List.reverse_reverse, List.reverse_cons] at hbody
      refine Eq.trans ?_ hbody
      rw [List.append_assoc, List.singleton_append]
    · exact List.append_nil body
  · exact List.append_nil body

/-- What stays at the end of a body begins with a closing brace. -/
theorem trimmed_of_head?_snd_splitClosing {body : List String} {line : String}
    (h : (splitClosing body).2.head? = some line) : Text.trimmed line = "\x7d" := by
  unfold splitClosing at h
  dsimp only at h
  split at h
  · next last before hdrop =>
    split at h
    · next hlast =>
      cases h
      exact hlast
    · cases h
  · cases h

/-- The first line of a body comes first in the block, unless it is a closing brace. -/
theorem head?_fst_splitClosing {body : List String} {line : String} (h : body.head? = some line)
    (hline : Text.trimmed line ≠ "\x7d") : (splitClosing body).1.head? = some line := by
  have happend := splitClosing_append body
  cases hlead : (splitClosing body).1 with
  | nil =>
    rw [hlead, List.nil_append] at happend
    rw [← happend] at h
    exact absurd (trimmed_of_head?_snd_splitClosing h) hline
  | cons first rest =>
    rw [hlead] at happend
    rw [← happend] at h
    exact h

/-- A region whose body begins with a line that is no closing brace begins with that line. -/
theorem head?_lines_region {line : String} (h : r.bodyLines.head? = some line)
    (hline : Text.trimmed line ≠ "\x7d") (hr : ∃ ls, (region r parts).block lib = .ok ls) :
    ((region r parts).lines lib).head? = some line := by
  obtain ⟨ls, hls⟩ := hr
  obtain ⟨-, rfl⟩ := block_region_eq_ok_iff.mp hls
  rw [lines_of_block hls, splice_eq]
  have hfirst := head?_fst_splitClosing h hline
  cases hlead : (splitClosing r.bodyLines).1 with
  | nil =>
    rw [hlead] at hfirst
    cases hfirst
  | cons first rest =>
    rw [hlead] at hfirst
    exact hfirst

end Plan

/-- A text with a visible second character after a tab does not lose it by trimming. -/
theorem trimmed_ne_of_toList {line : String} {c : Char} {cs : List Char}
    (h : line.toList = '\t' :: c :: cs) (hc : Text.isBlank c = false) (hbrace : c ≠ '\x7d') :
    Text.trimmed line ≠ "\x7d" := by
  have htrim : ∃ ds, Text.trim line.toList = c :: ds := by
    have hstart : Text.trimStart line.toList = c :: cs := by
      rw [h, Text.trimStart, List.dropWhile_cons_of_pos (by rfl),
        List.dropWhile_cons_of_neg (by simp [hc])]
    rw [Text.trim, hstart, Text.trimEnd, Text.dropEndWhile, List.reverse_cons,
      List.dropWhile_append]
    split
    · rw [List.dropWhile_cons_of_neg (by simp [hc])]
      exact ⟨[], rfl⟩
    · rw [List.reverse_append]
      exact ⟨_, rfl⟩
  obtain ⟨ds, hds⟩ := htrim
  intro heq
  rw [Text.trimmed, hds] at heq
  have hlist := congrArg String.toList heq
  rw [String.toList_ofList] at hlist
  cases hlist
  exact hbrace rfl

end RubyBinding
