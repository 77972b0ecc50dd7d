import GpuiFast.BackgroundBaking

namespace GpuiFast.Background

open List

variable {K R : Type*} [Field K] [LinearOrder K]

lemma exists_last {α : Type*} {P : α → Prop} {l : List α} (h : ∃ x ∈ l, P x) :
    ∃ before x after, l = before ++ x :: after ∧ P x ∧ ∀ y ∈ after, ¬P y := by
  induction l with
  | nil =>
    obtain ⟨x, hx, -⟩ := h
    cases hx
  | cons a l ih =>
    by_cases hl : ∃ x ∈ l, P x
    · obtain ⟨before, x, after, rfl, hx, hafter⟩ := ih hl
      exact ⟨a :: before, x, after, rfl, hx, hafter⟩
    · obtain ⟨x, hx, hp⟩ := h
      rcases mem_cons.mp hx with rfl | hx
      · exact ⟨[], x, l, rfl, hp, fun y hy hpy => hl ⟨y, hy, hpy⟩⟩
      · exact absurd ⟨x, hx, hp⟩ hl

section

variable [FloorRing K] {shade : Clipped K (QuadPaint K × R) → Point K → Rgba K → Rgba K}
  {p : Point K}

lemma foldl_ink_of_untouched {after : List (Clipped K (QuadPaint K × R))}
    (h : ∀ y ∈ after, ¬y.Touches p) (under : Rgba K) : after.foldl (ink shade p) under = under := by
  induction after generalizing under with
  | nil => rfl
  | cons y after ih =>
    have hy : ink shade p under y = under := if_neg (h y mem_cons_self)
    rw [foldl_cons, hy]
    exact ih (fun z hz => h z (mem_cons_of_mem _ hz)) under

lemma colourAt_iff [IsStrictOrderedRing K] {drawn : List (Clipped K (QuadPaint K × R))}
    {colour : Rgba K} :
    (∀ shade cleared, colourAt shade cleared drawn p = colour) ↔ ShowsPlain drawn colour p := by
  constructor
  · intro hall
    have hother : (⟨colour.r + 1, colour.g, colour.b, colour.a⟩ : Rgba K) ≠ colour := by
      intro heq
      have hr := congrArg Rgba.r heq
      simp at hr
    by_cases htouch : ∃ x ∈ drawn, x.Touches p
    · obtain ⟨before, x, after, rfl, hx, hafter⟩ := exists_last htouch
      have hlast : ∀ shade cleared, ink shade p (before.foldl (ink shade p) cleared) x = colour := by
        intro shade cleared
        have hc := hall shade cleared
        rw [colourAt, foldl_append, foldl_cons, foldl_ink_of_untouched hafter] at hc
        exact hc
      by_cases hplain : x.IsPlain p
      · have hsolid := hlast (fun _ _ under => under) colour
        rw [ink, if_pos hx, if_pos hplain] at hsolid
        exact ⟨before, x, after, rfl, hx, hplain, hsolid, hafter⟩
      · -- a shader may leave another colour
        have hshaded := hlast (fun _ _ _ => ⟨colour.r + 1, colour.g, colour.b, colour.a⟩) colour
        rw [ink, if_pos hx, if_neg hplain] at hshaded
        exact absurd hshaded hother
    · have hcleared := hall (fun _ _ under => under)
        ⟨colour.r + 1, colour.g, colour.b, colour.a⟩
      rw [colourAt, foldl_ink_of_untouched (fun y hy hp => htouch ⟨y, hy, hp⟩)] at hcleared
      exact absurd hcleared hother
  · rintro ⟨before, x, after, rfl, hx, hplain, hsolid, hafter⟩ shade cleared
    rw [colourAt, foldl_append, foldl_cons, foldl_ink_of_untouched hafter, ink,
      if_pos hx, if_pos hplain, hsolid]

/-- Nothing plain after `x` reaches `p`: then nothing after may reach it at all, and `x` shows there
if it does, or else what is drawn before it. -/
lemma colourAt_split_iff [IsStrictOrderedRing K] {before after : List (Clipped K (QuadPaint K × R))}
    {x : Clipped K (QuadPaint K × R)} (hx : x.IsPlain p)
    (hafter : ∀ y ∈ after, y.Touches p → ¬y.IsPlain p) :
    (∀ shade cleared, colourAt shade cleared (before ++ x :: after) p =
        x.placed.primitive.rest.1.solid.toRgba) ↔
      (∀ y ∈ after, ¬y.Touches p) ∧
        (x.Touches p ∨ ShowsPlain before x.placed.primitive.rest.1.solid.toRgba p) := by
  set colour := x.placed.primitive.rest.1.solid.toRgba with hcolour
  have hother : (⟨colour.r + 1, colour.g, colour.b, colour.a⟩ : Rgba K) ≠ colour := by
    intro heq
    have hr := congrArg Rgba.r heq
    simp at hr
  constructor
  · intro hall
    have huntouched : ∀ y ∈ after, ¬y.Touches p := by
      intro y hy htouches
      obtain ⟨b, z, c, rfl, hz, hc⟩ := exists_last (P := (·.Touches p)) ⟨y, hy, htouches⟩
      -- a shader may leave another colour
      have hshaded := hall (fun _ _ _ => ⟨colour.r + 1, colour.g, colour.b, colour.a⟩) colour
      rw [colourAt, foldl_append, foldl_cons, foldl_append, foldl_cons,
        foldl_ink_of_untouched hc, ink, if_pos hz, if_neg (hafter z (by simp) hz)] at hshaded
      exact hother hshaded
    refine ⟨huntouched, or_iff_not_imp_left.mpr (fun hnot => colourAt_iff.mp ?_)⟩
    intro shade cleared
    have hc := hall shade cleared
    rwa [colourAt, foldl_append, foldl_cons, foldl_ink_of_untouched huntouched, ink,
      if_neg hnot] at hc
  · rintro ⟨huntouched, hshows⟩ shade cleared
    rw [colourAt, foldl_append, foldl_cons, foldl_ink_of_untouched huntouched, ink]
    split_ifs with htouches
    · rfl
    · exact colourAt_iff.mpr (hshows.resolve_left htouches) shade cleared

end

section

variable (viewport : Bounds K)

def shown (x : Placed K (QuadPaint K × R)) : Bool :=
  (visibleBounds x.primitive).intersects viewport

structure Tops (l : List (Placed K (QuadPaint K × R))) (top : Top K R) : Prop where
  empty : top.1 = none → ∀ x ∈ l, shown viewport x = false
  top : ∀ x, top.1 = some x → (x ∈ l ∧ shown viewport x = true) ∧
    (∀ y ∈ l, shown viewport y = true → y.order ≤ x.order) ∧
    top.2 = l.countP (fun y => shown viewport y && decide (y.order = x.order))

lemma Tops.look {l : List (Placed K (QuadPaint K × R))} {top : Top K R}
    (h : Tops viewport l top) (x : Placed K (QuadPaint K × R)) :
    Tops viewport (l ++ [x]) (top.look viewport x) := by
  have hcount : ∀ order, (l ++ [x]).countP (fun y => shown viewport y && decide (y.order = order)) =
      l.countP (fun y => shown viewport y && decide (y.order = order)) +
        if shown viewport x = true ∧ x.order = order then 1 else 0 := by
    intro order
    simp [countP_append, countP_cons]
  cases hshown : shown viewport x with
  | false =>
    have hlook : top.look viewport x = top := by
      have hnot : (visibleBounds x.primitive).intersects viewport = false := hshown
      simp [Top.look, hnot]
    rw [hlook]
    refine ⟨?_, ?_⟩
    · intro hnone y hy
      rcases mem_append.mp hy with hy | hy
      · exact h.empty hnone y hy
      · rwa [mem_singleton.mp hy]
    · intro z hz
      obtain ⟨⟨hmem, hzshown⟩, hmax, hshared⟩ := h.top z hz
      refine ⟨⟨mem_append_left _ hmem, hzshown⟩, ?_, ?_⟩
      · intro y hy hyshown
        rcases mem_append.mp hy with hy | hy
        · exact hmax y hy hyshown
        · rw [mem_singleton.mp hy, hshown] at hyshown
          cases hyshown
      · rw [hcount, if_neg (by simp [hshown]), hshared, add_zero]
  | true =>
    have hnew : ∀ (hbelow : ∀ y ∈ l, shown viewport y = true → y.order < x.order),
        Tops viewport (l ++ [x]) (some x, 1) := by
      intro hbelow
      refine ⟨by simp, ?_⟩
      intro z hz
      cases hz
      refine ⟨⟨by simp, hshown⟩, ?_, ?_⟩
      · intro y hy hyshown
        rcases mem_append.mp hy with hy | hy
        · exact (hbelow y hy hyshown).le
        · rw [mem_singleton.mp hy]
      · have hzero : l.countP (fun y => shown viewport y && decide (y.order = x.order)) = 0 := by
          refine countP_eq_zero.mpr (fun y hy => ?_)
          simp only [Bool.and_eq_true, decide_eq_true_eq, not_and]
          exact fun hyshown heq => absurd heq (hbelow y hy hyshown).ne
        rw [hcount, hzero, if_pos ⟨hshown, rfl⟩]
    have hin : (visibleBounds x.primitive).intersects viewport = true := hshown
    simp only [Top.look, hin, Bool.not_true, Bool.false_eq_true, if_false]
    split
    · rename_i y hy
      obtain ⟨⟨hmem, hyshown⟩, hmax, hshared⟩ := h.top y hy
      split
      · -- drawn below what is on top
        rename_i hlt
        refine ⟨by simp [hy], ?_⟩
        intro z hz
        obtain rfl : y = z := Option.some.inj (hy.symm.trans hz)
        refine ⟨⟨mem_append_left _ hmem, hyshown⟩, ?_, ?_⟩
        · intro w hw hwshown
          rcases mem_append.mp hw with hw | hw
          · exact hmax w hw hwshown
          · rw [mem_singleton.mp hw]
            exact hlt.le
        · rw [hcount, if_neg (fun heq => hlt.ne heq.2), hshared, add_zero]
      split
      · rename_i heq
        refine ⟨by simp [hy], ?_⟩
        intro z hz
        obtain rfl : y = z := Option.some.inj (hy.symm.trans hz)
        refine ⟨⟨mem_append_left _ hmem, hyshown⟩, ?_, ?_⟩
        · intro w hw hwshown
          rcases mem_append.mp hw with hw | hw
          · exact hmax w hw hwshown
          · rw [mem_singleton.mp hw]
            exact heq.le
        · rw [hcount, if_pos ⟨hshown, heq⟩, hshared]
      · rename_i hnlt hne
        exact hnew (fun w hw hwshown => (hmax w hw hwshown).trans_lt (by omega))
    · rename_i hnone
      refine hnew (fun w hw hwshown => ?_)
      rw [h.empty hnone w hw] at hwshown
      cases hwshown

lemma tops_foldl (l : List (Placed K (QuadPaint K × R))) :
    Tops viewport l (l.foldl (Top.look viewport) (none, 0)) := by
  induction l using reverseRecOn with
  | nil => exact ⟨by simp, by simp⟩
  | append_singleton l x ih =>
    rw [foldl_append]
    exact ih.look viewport x

end

omit [Field K] [LinearOrder K] in
lemma clipped_map (open' : List (RoundedShape K))
    (operations : List (ContentOperation K (QuadPaint K × R))) :
    (clipped open' operations).map (·.placed) = primitives operations := by
  induction operations generalizing open' with
  | nil => rfl
  | cons operation operations ih =>
    cases operation with
    | recorded op =>
      cases op with
      | primitive x =>
        rw [clipped, map_cons, ih]
        rfl
      | startLayer bounds => exact ih open'
      | endLayer => exact ih open'
    | fastRoundedClip clip =>
      cases clip with
      | start shape => exact ih (shape :: open')
      | finish => exact ih open'.tail

variable (operations : List (ContentOperation K (QuadPaint K × R))) {outer inner : Bounds K}
  {p : Point K} {viewport : Bounds K}

omit [Field K] [LinearOrder K] in
lemma drawing_perm : (drawing operations).Perm (clipped [] operations) := perm_insertionSort _ _

omit [Field K] [LinearOrder K] in
lemma drawing_ordered :
    (drawing operations).Pairwise (fun x y => x.placed.order ≤ y.placed.order) := by
  have htotal : Std.Total (fun x y : Clipped K (QuadPaint K × R) =>
      Overlay.sequenceKey x.placed ≤ Overlay.sequenceKey y.placed) :=
    ⟨fun x y => le_total _ _⟩
  have htrans : IsTrans (Clipped K (QuadPaint K × R)) (fun x y =>
      Overlay.sequenceKey x.placed ≤ Overlay.sequenceKey y.placed) :=
    ⟨fun x y z => le_trans⟩
  have hsorted : (drawing operations).Pairwise (fun x y =>
      Overlay.sequenceKey x.placed ≤ Overlay.sequenceKey y.placed) :=
    pairwise_insertionSort _ _
  refine hsorted.imp (fun hle => ?_)
  rcases Prod.Lex.toLex_le_toLex.mp hle with hlt | ⟨heq, -⟩
  · exact hlt.le
  · exact heq.le

lemma contains_iff : contains outer inner = true ↔ outer.Covers inner := by
  simp only [contains, Bool.and_eq_true, decide_eq_true_eq, Bounds.Covers]
  tauto

lemma hasPoint_of_covers (h : outer.Covers inner) (hp : inner.HasPoint p) : outer.HasPoint p := by
  obtain ⟨⟨hleft, htop⟩, hright, hbottom⟩ := h
  obtain ⟨⟨hl, hr⟩, ht, hb⟩ := hp
  exact ⟨⟨hleft.trans hl, hr.trans_le hright⟩, htop.trans ht, hb.trans_le hbottom⟩

lemma intersects_of_hasPoint {a b : Bounds K} (ha : a.HasPoint p) (hb : b.HasPoint p) :
    a.intersects b = true := by
  obtain ⟨⟨hl, hr⟩, ht, hbo⟩ := ha
  obtain ⟨⟨hl', hr'⟩, ht', hbo'⟩ := hb
  rw [Bounds.intersects_iff]
  exact ⟨⟨hl.trans_lt hr', hl'.trans_lt hr⟩, ht.trans_lt hbo', ht'.trans_lt hbo⟩

lemma covers_spec {bounds contentMask : Bounds K} {quad : QuadPaint K}
    (h : covers bounds contentMask quad viewport = true) :
    (quad.tag = .solid ∧ 1 ≤ quad.solid.a) ∧ (bounds.intersect contentMask).Covers viewport ∧
      (visibleBorder quad = true → (innerBounds bounds quad).Covers viewport) ∧
      ∀ square ∈ cornerSquares bounds quad, 0 < square.1 →
        square.2.intersects viewport = false := by
  simp only [covers] at h
  split at h
  · cases h
  rename_i hsolid
  obtain ⟨htag, halpha⟩ := not_or.mp hsolid
  split at h
  · cases h
  rename_i hvisible
  split at h
  · cases h
  rename_i hborder
  refine ⟨⟨not_not.mp htag, not_lt.mp halpha⟩, contains_iff.mp (by simpa using hvisible), ?_, ?_⟩
  · intro hvisibleBorder
    rw [hvisibleBorder] at hborder
    exact contains_iff.mp (by simpa using hborder)
  · intro square hmem hpos
    have hsquare := all_eq_true.mp h square hmem
    simpa [not_le.mpr hpos] using hsquare

lemma bakeOperations_spec [FloorRing K] {operations : List (ContentOperation K (QuadPaint K × R))}
    {colour : Rgba K} (hbake : bakeOperations operations viewport = some colour) :
    ∃ before x after, drawing operations = before ++ x :: after ∧ x.placed.kind = .quad ∧
      x.placed.primitive.rest.1.solid.toRgba = colour ∧
      covers x.placed.primitive.bounds x.placed.primitive.contentMask x.placed.primitive.rest.1
        viewport = true ∧ ∀ y ∈ after, shown viewport y.placed = false := by
  have htops := tops_foldl viewport (primitives operations)
  simp only [bakeOperations] at hbake
  split at hbake
  swap
  · cases hbake
  rename_i x hx
  split at hbake
  swap
  · cases hbake
  rename_i hquad
  obtain ⟨hkind, hone, hcovers⟩ := hquad
  obtain ⟨⟨hmem, hshown⟩, hmax, hshared⟩ := htops.top x hx
  have hperm : ((drawing operations).map (·.placed)).Perm (primitives operations) := by
    rw [← clipped_map []]
    exact (drawing_perm operations).map _
  obtain ⟨t, ht, hplaced⟩ := mem_map.mp (hperm.mem_iff.mpr hmem)
  obtain ⟨before, after, hsplit⟩ := append_of_mem ht
  subst hplaced
  refine ⟨before, t, after, hsplit, hkind, Option.some.inj hbake, hcovers, ?_⟩
  intro y hy
  by_contra hyshown
  have hyshown : shown viewport y.placed = true := by simpa using hyshown
  have hymem : y.placed ∈ primitives operations :=
    hperm.mem_iff.mp (mem_map_of_mem (by rw [hsplit]; simp [hy]))
  have hordered := drawing_ordered operations
  rw [hsplit] at hordered
  have hle := (pairwise_cons.mp (pairwise_append.mp hordered).2.1).1 y hy
  have hsame : y.placed.order = t.placed.order := le_antisymm (hmax _ hymem hyshown) hle
  -- it would share the draw order of what is on top
  have htwo : 2 ≤ (primitives operations).countP
      (fun z => shown viewport z && decide (z.order = t.placed.order)) := by
    rw [← hperm.countP_eq, hsplit, map_append, map_cons, countP_append,
      countP_cons_of_pos (by simp [hshown])]
    have hpos : 0 < (after.map (·.placed)).countP
        (fun z => shown viewport z && decide (z.order = t.placed.order)) :=
      countP_pos_iff.mpr ⟨y.placed, mem_map_of_mem hy, by simp [hyshown, hsame]⟩
    omega
  omega

variable [IsStrictOrderedRing K] [FloorRing K]

section

variable {x : Clipped K (QuadPaint K × R)}

omit [IsStrictOrderedRing K] [FloorRing K] in
lemma isPlain_of_covers (hkind : x.placed.kind = .quad)
    (hcovers : covers x.placed.primitive.bounds x.placed.primitive.contentMask
      x.placed.primitive.rest.1 viewport = true) (hp : viewport.HasPoint p) : x.IsPlain p := by
  obtain ⟨⟨htag, halpha⟩, -, hborder, hcorners⟩ := covers_spec hcovers
  refine ⟨hkind, htag, halpha, fun hvisible => hasPoint_of_covers (hborder hvisible) hp, ?_⟩
  intro square hsquare hpos hin
  have hmeets := intersects_of_hasPoint hin hp
  rw [hcorners square hsquare hpos] at hmeets
  cases hmeets

omit [IsStrictOrderedRing K] [FloorRing K] in
lemma touches_iff_of_covers (hkind : x.placed.kind = .quad)
    (hcovers : covers x.placed.primitive.bounds x.placed.primitive.contentMask
      x.placed.primitive.rest.1 viewport = true) (hp : viewport.HasPoint p) :
    x.Touches p ↔ ∀ shape ∈ x.clips, shape.contains p = true := by
  obtain ⟨-, hvisible, -⟩ := covers_spec hcovers
  have hshape : x.placed.primitive.shape = .quad := by
    have hk : x.placed.primitive.shape.kind = .quad := hkind
    revert hk
    cases x.placed.primitive.shape <;> simp [Shape.kind]
  have hreach : Overlay.reach x.placed.primitive =
      x.placed.primitive.bounds.intersect x.placed.primitive.contentMask := by
    simp [Overlay.reach, visibleBounds, drawnBounds, hshape]
  rw [Clipped.Touches, hreach]
  exact and_iff_right (hasPoint_of_covers hvisible hp)

omit [IsStrictOrderedRing K] [FloorRing K] in
/-- What is no path reaches no further than it is visible. -/
lemma not_touches_of_not_shown (hnot : shown viewport x.placed = false)
    (hpath : x.placed.isPath = false) (hp : viewport.HasPoint p) : ¬x.Touches p := by
  intro htouches
  have hreach : Overlay.reach x.placed.primitive = visibleBounds x.placed.primitive := by
    have hkind : x.placed.kind ≠ .path := by simpa [Placed.isPath] using hpath
    have hk : x.placed.primitive.shape.kind ≠ .path := hkind
    revert hk
    simp only [Overlay.reach]
    cases x.placed.primitive.shape <;> simp [Shape.kind]
  have hin : (visibleBounds x.placed.primitive).HasPoint p := hreach ▸ htouches.1
  have hmeets : shown viewport x.placed = true := intersects_of_hasPoint hin hp
  rw [hnot] at hmeets
  cases hmeets

end

def roundedCard : List (PaintStep ℚ Unit) :=
  [.clip (.start ⟨⟨⟨0, 0⟩, ⟨100, 100⟩⟩, List.replicate 4 (24, 24)⟩),
    .paint (.insertPrimitive
      { shape := .quad
        bounds := ⟨⟨0, 0⟩, ⟨100, 100⟩⟩
        contentMask := ⟨⟨0, 0⟩, ⟨100, 100⟩⟩
        rest :=
          ({ tag := .solid, solid := ⟨0, 0, 1, 1⟩, borderWidths := ⟨0, 0, 0, 0⟩
             borderColor := ⟨0, 0, 0, 0⟩, cornerRadii := ⟨0, 0, 0, 0⟩ }, ()) }),
    .clip .finish]

end GpuiFast.Background
