import GpuiFast.SumTreeFind
import GpuiFast.SumTreeSeek

namespace GpuiFast

open List

variable {T S D : Type} [Summary S] [Item T S] [LawfulSummary S]

namespace SumTree

/-- How a tree came to be. -/
inductive Made (T : Type) where
  | new
  | fromIter (items : List T)
  | push (made : Made T) (item : T)
  | extend (made : Made T) (items : List T)
  | append (made other : Made T)

namespace Made

def items : Made T → List T
  | new => []
  | fromIter items => items
  | push made item => made.items ++ [item]
  | extend made items => made.items ++ items
  | append made other => made.items ++ other.items

def tree : Made T → Option (SumTree T S)
  | new => some SumTree.new
  | fromIter items => SumTree.fromIter items
  | push made item => do (← made.tree).push item
  | extend made items => do (← made.tree).extend items
  | append made other => do (← made.tree).append (← other.tree)

/-- A tree is a list however it was made, and no node of it is ever too full for its array. -/
theorem tree_items (made : Made T) :
    ∃ tree : SumTree T S, made.tree = some tree ∧ tree.Valid ∧ tree.items = made.items ∧
      tree.first = some made.items.head? ∧ tree.last = some made.items.getLast? := by
  have hmade : ∃ tree : SumTree T S, made.tree = some tree ∧ tree.Valid ∧
      tree.items = made.items := by
    induction made with
    | new => exact ⟨SumTree.new, rfl, .inl rfl, items_leaf ..⟩
    | fromIter items => exact fromIter_spec items
    | push made item ih =>
      obtain ⟨tree, htree, hvalid, hitems⟩ := ih
      obtain ⟨tree', hpush, hvalid', hitems'⟩ := push_spec hvalid item
      exact ⟨tree', by rw [Made.tree, htree]; exact hpush, hvalid', by rw [hitems', hitems]; rfl⟩
    | extend made items ih =>
      obtain ⟨tree, htree, hvalid, hitems⟩ := ih
      obtain ⟨tree', hextend, hvalid', hitems'⟩ := extend_spec hvalid items
      exact ⟨tree', by rw [Made.tree, htree]; exact hextend, hvalid', by rw [hitems', hitems]; rfl⟩
    | append made other ih ih' =>
      obtain ⟨tree, htree, hvalid, hitems⟩ := ih
      obtain ⟨other', hother, hvalid', hitems'⟩ := ih'
      obtain ⟨tree', happend, hvalid'', hitems''⟩ := append_spec hvalid hvalid'
      refine ⟨tree', ?_, hvalid'', by rw [hitems'', hitems, hitems']; rfl⟩
      rw [Made.tree, htree, hother]
      exact happend
  obtain ⟨tree, htree, hvalid, hitems⟩ := hmade
  refine ⟨tree, htree, hvalid, hitems, ?_, ?_⟩
  · rw [first_spec hvalid, hitems]
  · rw [last_spec hvalid, hitems]

theorem tree_items_letters :
    ∃ tree : SumTree Char Count,
      (append (push (fromIter ['a', 'b']) 'c') (extend new ['d'])).tree = some tree ∧ tree.Valid ∧
      tree.items = ['a', 'b', 'c', 'd'] ∧ tree.first = some (some 'a') ∧
      tree.last = some (some 'd') :=
  tree_items (append (push (fromIter ['a', 'b']) 'c') (extend new ['d']))

end Made

lemma append_pieces {tree : SumTree T S} {pieces : List (SumTree T S)}
    (hpieces : ∀ piece ∈ pieces, piece.Valid) (hvalid : tree.Valid) :
    ∃ whole, pieces.foldlM append tree = some whole ∧ whole.Valid ∧
      whole.items = tree.items ++ (pieces.map items).flatten := by
  induction pieces generalizing tree with
  | nil => exact ⟨tree, rfl, hvalid, (append_nil _).symm⟩
  | cons piece pieces ih =>
    obtain ⟨hpiece, hpieces⟩ := forall_mem_cons.mp hpieces
    obtain ⟨tree', happend, hvalid', hitems⟩ := append_spec hvalid hpiece
    obtain ⟨whole, hwhole, hwholeValid, hwholeItems⟩ := ih hpieces hvalid'
    refine ⟨whole, by rw [foldlM_cons, happend]; exact hwhole, hwholeValid, ?_⟩
    rw [hwholeItems, hitems, map_cons, flatten_cons, append_assoc]

end SumTree

namespace Cursor

open SumTree (twoLeaves twoLeaves_wellFormed)

variable [Dimension D S] [LinearOrder D]

/-- The slices up to one target after another, and what is left. -/
def cut (c : Cursor T S D) : List (D × Bias) → Option (List (SumTree T S))
  | [] => do
    let (_, tree) ← c.suffix
    return [tree]
  | (target, bias) :: targets => do
    let (c, tree) ← c.slice (compare target) bias
    let trees ← c.cut targets
    return tree :: trees

/-- Whether the pieces end where a scan of the list stops at the targets. -/
def Cuts (S : Type) [Item T S] [Dimension D S] (before : List T) :
    List (D × Bias) → List (List T) → Prop
  | [], pieces => pieces.length = 1
  | _ :: _, [] => False
  | (target, bias) :: targets, piece :: pieces =>
    (piece ≠ [] →
      bias.passes (compare target (endAt (Dimension.zero S) (before ++ piece))) = true) ∧
    (∀ item ∈ pieces.flatten.head?,
      bias.passes (compare target (endAt (Dimension.zero S) (before ++ piece ++ [item]))) = false) ∧
    Cuts S (before ++ piece) targets pieces

variable [LawfulDimension D S] {tree : SumTree T S} {c : Cursor T S D} {before left : List T}
  {targets : List (D × Bias)}

omit [LinearOrder D] in
lemma measures_endAt (items : List T) : Measures items (endAt (Dimension.zero S : D)) where
  zero := rfl
  add before segment after _ hne := by rw [addSummary_total _ hne, endAt_append]

lemma cut_spec (hvalid : tree.Valid) (hheight : tree.height < STACK_CAPACITY)
    (hc : At tree (endAt (Dimension.zero S)) c before left ∨
      Fresh tree c ∧ before = [] ∧ left = tree.items)
    (hbefore : ∀ target ∈ targets, endAt (Dimension.zero S) before ≤ target.1)
    (hsorted : targets.Pairwise (fun a b => a.1 ≤ b.1)) :
    ∃ pieces, c.cut targets = some pieces ∧ (∀ piece ∈ pieces, piece.Valid) ∧
      (pieces.map SumTree.items).flatten = left ∧
      Cuts S before targets (pieces.map SumTree.items) := by
  have hslice : ∀ (target : D → Ordering) (bias : Bias),
      target (endAt (Dimension.zero S) before) ≠ .lt →
      Moves (fun slice passed => slice.Valid ∧ slice.items = passed) target bias tree
        (endAt (Dimension.zero S)) before left (c.slice target bias) := by
    intro target bias htarget
    rcases hc with hat | ⟨hfresh, rfl, rfl⟩
    · exact hat.slice (measures_endAt _) hheight htarget
    · exact hfresh.slice hvalid (measures_endAt _) hheight htarget
  induction targets generalizing c before left with
  | nil =>
    obtain ⟨passed, rest, c', piece, rfl, hresult, -, ⟨hpiece, hitems⟩, -, hstops⟩ :=
      hslice (fun _ => .gt) .right nofun
    obtain rfl : rest = [] := by
      cases rest with
      | nil => rfl
      | cons item rest => exact Bool.noConfusion (hstops item rfl)
    refine ⟨[piece], by rw [cut, suffix, hresult]; rfl, ?_, ?_, rfl⟩
    · intro other hother
      rwa [mem_singleton.mp hother]
    · simp [hitems]
  | cons head targets ih =>
    obtain ⟨target, bias⟩ := head
    obtain ⟨hfirst, hsorted⟩ := pairwise_cons.mp hsorted
    have hle := hbefore _ (mem_cons_self ..)
    obtain ⟨passed, rest, c', piece, rfl, hresult, hat, ⟨hpiece, hitems⟩, hpasses, hstops⟩ :=
      hslice (compare target) bias (compare_ge_iff_ge.mpr hle)
    have hreached : endAt (Dimension.zero S) (before ++ passed) ≤ target := by
      by_cases hnil : passed = []
      · rwa [hnil, append_nil]
      · refine compare_ge_iff_ge.mp (fun hlt => ?_)
        have hpass := hpasses hnil
        rw [hlt] at hpass
        cases bias <;> cases hpass
    obtain ⟨pieces, hcut, hpieces, hrest, hcuts⟩ := ih (.inl hat)
      (fun other hother => hreached.trans (hfirst other hother)) hsorted
      (fun target bias htarget => hat.slice (measures_endAt _) hheight htarget)
    refine ⟨piece :: pieces, by rw [cut, hresult]; simp [hcut], ?_, ?_, ?_⟩
    · intro other hother
      rcases mem_cons.mp hother with rfl | hother
      · exact hpiece
      · exact hpieces other hother
    · rw [map_cons, flatten_cons, hrest, hitems]
    · rw [map_cons, hitems]
      exact ⟨hpasses, by rwa [hrest], hcuts⟩

/-- A tree is cut where a scan of its list stops, and the pieces appended are the list again. -/
theorem cut_append (hvalid : tree.Valid) (hheight : tree.height < STACK_CAPACITY)
    (hzero : ∀ target ∈ targets, Dimension.zero S ≤ target.1)
    (hsorted : targets.Pairwise (fun a b => a.1 ≤ b.1)) :
    ∃ pieces, (Cursor.new tree).cut targets = some pieces ∧ (∀ piece ∈ pieces, piece.Valid) ∧
      Cuts S [] targets (pieces.map SumTree.items) ∧
      ∃ whole, pieces.foldlM SumTree.append SumTree.new = some whole ∧ whole.Valid ∧
        whole.items = tree.items := by
  obtain ⟨pieces, hcut, hpieces, hitems, hcuts⟩ :=
    cut_spec hvalid hheight (.inr ⟨fresh_new tree, rfl, rfl⟩) hzero hsorted
  obtain ⟨whole, hwhole, hwholeValid, hwholeItems⟩ := SumTree.append_pieces hpieces (.inl rfl)
  refine ⟨pieces, hcut, hpieces, hcuts, whole, hwhole, hwholeValid, ?_⟩
  rw [hwholeItems, hitems, SumTree.new, SumTree.items_leaf, nil_append]

instance : LinearOrder Count := LinearOrder.lift' Count.val (fun _ _ => congrArg Count.mk)

theorem cut_append_letters :
    ∃ pieces, (Cursor.new (twoLeaves "abc" "def") : Cursor Char Count Count).cut
        [(⟨2⟩, .left), (⟨5⟩, .right)] = some pieces ∧ (∀ piece ∈ pieces, piece.Valid) ∧
      Cuts Count [] [((⟨2⟩ : Count), .left), (⟨5⟩, .right)] (pieces.map SumTree.items) ∧
      ∃ whole, pieces.foldlM SumTree.append SumTree.new = some whole ∧ whole.Valid ∧
        whole.items = (twoLeaves "abc" "def").items :=
  cut_append (.inr ⟨1, twoLeaves_wellFormed (by decide) (by decide) (by decide) (by decide)⟩)
    (by decide) (by decide) (by decide)

end Cursor

end GpuiFast
