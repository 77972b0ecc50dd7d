import GpuiFast.RunReplacements

namespace GpuiFast

open List Option

variable {K : Type*}

namespace ReplacementWalk

variable [AddZeroClass K]

def visits : ReplacementWalk K → List (FontId × ShapedGlyph K) →
    ReplacementWalk K × List (FontId × ShapedGlyph K)
  | walk, [] => (walk, [])
  | walk, (fontId, glyph) :: stream =>
    let (walk, kept) := walk.visit fontId glyph
    let (walk, rest) := walk.visits stream
    (walk, kept.toList ++ rest)

lemma visits_append (walk : ReplacementWalk K) (stream stream' : List (FontId × ShapedGlyph K)) :
    walk.visits (stream ++ stream') =
      (((walk.visits stream).1.visits stream').1,
        (walk.visits stream).2 ++ ((walk.visits stream).1.visits stream').2) := by
  induction stream generalizing walk with
  | nil => rfl
  | cons glyph stream ih =>
    obtain ⟨fontId, glyph⟩ := glyph
    rw [cons_append, visits, visits]
    dsimp only
    rw [ih, append_assoc]

end ReplacementWalk

def segmentFonts (segments : List Segment) : List FontId :=
  segments.flatMap (fun segment => List.replicate segment.length segment.fontId)

variable (segments : List Segment)

lemma segmentFonts_append (segments' : List Segment) :
    segmentFonts (segments ++ segments') = segmentFonts segments ++ segmentFonts segments' :=
  flatMap_append ..

variable (segment : Segment) (runs : List (ShapedRun K)) (fontId : FontId)

lemma segmentFonts_singleton :
    segmentFonts [segment] = List.replicate segment.length segment.fontId :=
  flatMap_singleton ..

lemma segmentFonts_extend :
    segmentFonts (extendSegments segments fontId) = segmentFonts segments ++ [fontId] := by
  rw [extendSegments]
  rcases eq_nil_or_concat segments with rfl | ⟨before, segment, rfl⟩
  · rfl
  · rw [concat_eq_append, getLast?_concat, dropLast_concat]
    dsimp only
    split
    · next hfont =>
      rw [segmentFonts_append, segmentFonts_append, segmentFonts_singleton,
        segmentFonts_singleton, replicate_succ', hfont, append_assoc]
    · rw [segmentFonts_append _ [_]]
      rfl

lemma length_segmentFonts : (segmentFonts segments).length = (segments.map Segment.length).sum := by
  rw [segmentFonts, length_flatMap]
  simp

def splitRun : List Segment → List (ShapedGlyph K) → List (ShapedRun K)
  | [], _ => []
  | segment :: segments, glyphs =>
    ⟨segment.fontId, glyphs.take segment.length⟩ :: splitRun segments (glyphs.drop segment.length)

lemma splitRun_concat (glyphs : List (ShapedGlyph K)) :
    splitRun (segments ++ [segment]) glyphs =
      splitRun segments (glyphs.take (segments.map Segment.length).sum) ++
        [⟨segment.fontId,
          (glyphs.drop (segments.map Segment.length).sum).take segment.length⟩] := by
  induction segments generalizing glyphs with
  | nil => rfl
  | cons first segments ih =>
    rw [cons_append, splitRun, ih, splitRun, map_cons, sum_cons, take_take,
      Nat.min_eq_left (Nat.le_add_right ..), drop_drop, drop_take, Nat.add_sub_cancel_left]
    rfl

lemma glyphStream_append (runs' : List (ShapedRun K)) :
    glyphStream (runs ++ runs') = glyphStream runs ++ glyphStream runs' := flatMap_append ..

lemma glyphStream_splitRun {segments : List Segment} {stream : List (FontId × ShapedGlyph K)}
    (h : segmentFonts segments = stream.map Prod.fst) :
    glyphStream (splitRun segments (stream.map Prod.snd)) = stream := by
  induction segments generalizing stream with
  | nil =>
    have hnil : stream = [] := map_eq_nil_iff.mp h.symm
    rw [hnil]
    rfl
  | cons segment segments ih =>
    have hfonts : List.replicate segment.length segment.fontId ++ segmentFonts segments =
        stream.map Prod.fst := h
    have hrest : segmentFonts segments = (stream.drop segment.length).map Prod.fst := by
      rw [map_drop, ← hfonts, drop_left' (length_replicate ..)]
    have hfirst : (stream.take segment.length).map Prod.fst =
        List.replicate segment.length segment.fontId := by
      rw [map_take, ← hfonts, take_left' (length_replicate ..)]
    have hsame : ((stream.map Prod.snd).take segment.length).map
        (fun glyph => (segment.fontId, glyph)) = stream.take segment.length := by
      rw [← map_take, List.map_map]
      refine (map_congr_left fun glyph hglyph => ?_).trans (List.map_id _)
      have hfont := eq_of_mem_replicate (hfirst ▸ mem_map_of_mem hglyph)
      exact Prod.ext hfont.symm rfl
    rw [splitRun, glyphStream, flatMap_cons, hsame, ← map_drop]
    exact (congrArg _ (ih hrest)).trans (take_append_drop ..)

structure Splits (run : ShapedRun K) (segments : List Segment) : Prop where
  nonempty : segments ≠ []
  length : (segments.map Segment.length).sum = run.glyphs.length

def splitRuns (runs : List (ShapedRun K)) (segmentsByRun : List (List Segment)) :
    List (ShapedRun K) :=
  (zipWith (fun run segments => splitRun segments run.glyphs) runs segmentsByRun).flatten

section Retained

variable [AddZeroClass K]

lemma retainGlyphs_eq (fontId : FontId) (walk : ReplacementWalk K) (glyphs : List (ShapedGlyph K)) :
    ∃ segments, retainGlyphs fontId walk glyphs =
        ((walk.visits (glyphs.map (fun glyph => (fontId, glyph)))).1,
          (walk.visits (glyphs.map (fun glyph => (fontId, glyph)))).2.map Prod.snd, segments) ∧
      segmentFonts segments =
        (walk.visits (glyphs.map (fun glyph => (fontId, glyph)))).2.map Prod.fst := by
  induction glyphs using reverseRecOn with
  | nil => exact ⟨[], rfl, rfl⟩
  | append_singleton glyphs glyph ih =>
    obtain ⟨segments, heq, hfonts⟩ := ih
    rw [retainGlyphs] at heq
    rw [retainGlyphs, foldl_append, heq, map_append, ReplacementWalk.visits_append]
    simp only [foldl_cons, foldl_nil, map_cons, map_nil, ReplacementWalk.visits, append_nil]
    cases (walk.visits (glyphs.map (fun glyph => (fontId, glyph)))).1.visit fontId glyph with
    | mk walk' kept =>
      cases kept with
      | none => exact ⟨segments, by simp, by simpa using hfonts⟩
      | some kept =>
        refine ⟨extendSegments segments kept.1, by simp, ?_⟩
        rw [segmentFonts_extend, hfonts]
        simp

structure RetainedRuns.Holds (retained : RetainedRuns K) (walk : ReplacementWalk K)
    (stream : List (FontId × ShapedGlyph K)) : Prop where
  walked : retained.walk = (walk.visits stream).1
  splits : Forall₂ Splits retained.runs retained.segmentsByRun
  stream : glyphStream (splitRuns retained.runs retained.segmentsByRun) = (walk.visits stream).2
  spareBuffers : ∀ buffer ∈ retained.spareBuffers, buffer = []

lemma RetainedRuns.Holds.retain {retained : RetainedRuns K} {walk : ReplacementWalk K}
    {stream : List (FontId × ShapedGlyph K)} (h : retained.Holds walk stream) (run : ShapedRun K) :
    (retained.retain run).Holds walk
      (stream ++ run.glyphs.map (fun glyph => (run.fontId, glyph))) := by
  obtain ⟨segments, heq, hfonts⟩ := retainGlyphs_eq run.fontId retained.walk run.glyphs
  rw [RetainedRuns.retain, heq]
  rw [h.walked] at hfonts ⊢
  dsimp only
  have hvisits := walk.visits_append stream (run.glyphs.map (fun glyph => (run.fontId, glyph)))
  cases hsegments : segments with
  | nil =>
    rw [hsegments] at hfonts
    have hnone : ((walk.visits stream).1.visits
        (run.glyphs.map (fun glyph => (run.fontId, glyph)))).2 = [] :=
      map_eq_nil_iff.mp hfonts.symm
    refine ⟨?_, h.splits, ?_, fun buffer hbuffer => ?_⟩
    · rw [hvisits]
      rfl
    · rw [hvisits, hnone, append_nil]
      exact h.stream
    · rcases mem_append.mp hbuffer with hbuffer | hbuffer
      · exact h.spareBuffers buffer hbuffer
      · rw [mem_singleton.mp hbuffer, hnone]
        rfl
  | cons segment rest =>
    rw [← hsegments]
    have hlength := congrArg List.length hfonts
    rw [length_segmentFonts, length_map] at hlength
    refine ⟨?_, ?_, ?_, ?_⟩
    · rw [hvisits, hsegments]
      rfl
    · rw [hsegments]
      refine rel_append h.splits (Forall₂.cons ⟨?_, ?_⟩ Forall₂.nil)
      · exact cons_ne_nil _ _
      · rw [← hsegments, hlength, length_map]
    · have hsplit := glyphStream_splitRun hfonts
      rw [hvisits, hsegments]
      dsimp only [isEmpty_cons]
      rw [if_neg (by simp), splitRuns, zipWith_append h.splits.length_eq, flatten_append,
        glyphStream_append]
      refine congrArg₂ (· ++ ·) h.stream ?_
      rw [← hsegments]
      simpa using hsplit
    · rw [hsegments]
      exact h.spareBuffers

lemma retainRuns_holds (replacements : List (Replacement K)) (runs : List (ShapedRun K)) :
    (retainRuns replacements runs).Holds (.new replacements) (glyphStream runs) := by
  induction runs using reverseRecOn with
  | nil => exact ⟨rfl, Forall₂.nil, rfl, fun _ hbuffer => (by cases hbuffer)⟩
  | append_singleton runs run ih =>
    have hrun : glyphStream [run] = run.glyphs.map (fun glyph => (run.fontId, glyph)) :=
      flatMap_singleton ..
    rw [retainRuns, foldl_append, glyphStream_append, hrun]
    exact ih.retain run

end Retained

namespace RunVector

variable (before after : List (ShapedRun K)) (run : ShapedRun K)

lemma set_length (run' : ShapedRun K) :
    (before ++ run :: after).set before.length run' = before ++ run' :: after := by
  rw [set_append_right _ _ le_rfl, Nat.sub_self, set_cons_zero]

lemma getElem?_length : (before ++ run :: after)[before.length]? = some run := by
  rw [getElem?_append_right le_rfl, Nat.sub_self, getElem?_cons_zero]

lemma swap_self :
    swap (before ++ run :: after) before.length before.length = some (before ++ run :: after) := by
  rw [swap, getElem?_length]
  simp only [bind_eq_bind, bind_some]
  rw [set_length, set_length]
  rfl

lemma swap_apart (between after : List (ShapedRun K)) (run run' : ShapedRun K) :
    swap (before ++ run :: (between ++ run' :: after)) before.length
        (before.length + 1 + between.length) =
      some (before ++ run' :: (between ++ run :: after)) := by
  have hregroup : ∀ first last : ShapedRun K, before ++ first :: (between ++ last :: after) =
      (before ++ first :: between) ++ last :: after := by
    intro first last
    rw [append_assoc, cons_append]
  have hlength : ∀ first : ShapedRun K, before.length + 1 + between.length =
      (before ++ first :: between).length := by
    intro first
    rw [length_append, length_cons]
    omega
  rw [swap, getElem?_length, hregroup, hlength run, getElem?_length, ← hregroup]
  simp only [bind_eq_bind, bind_some]
  rw [set_length, ← hlength run, hregroup, hlength run', set_length, ← hregroup]
  rfl

lemma expandSegments_eq {segments : List Segment} (hne : segments ≠ []) (destinationStart : ℕ)
    (before between after : List (ShapedRun K)) (run : ShapedRun K)
    (spareBuffers : List (List (ShapedGlyph K)))
    (hlength : (segments.map Segment.length).sum = run.glyphs.length)
    (hstart : before.length ≤ destinationStart)
    (hend : destinationStart + segments.length = before.length + 1 + between.length)
    (hspare : ∀ buffer ∈ spareBuffers, buffer = []) :
    ∃ between' spareBuffers', before.length + between'.length = destinationStart ∧
      (∀ buffer ∈ spareBuffers', buffer = []) ∧
      expandSegments before.length destinationStart segments.reverse run.glyphs.length
          ⟨before ++ run :: (between ++ after), spareBuffers⟩ =
        some ⟨before ++ (between' ++ (splitRun segments run.glyphs ++ after)), spareBuffers'⟩ := by
  induction segments using reverseRecOn generalizing between after run spareBuffers with
  | nil => exact absurd rfl hne
  | append_singleton segments segment ih =>
    rw [map_append, sum_append, map_singleton, sum_singleton] at hlength
    rw [length_append, length_singleton] at hend
    rw [reverse_append, reverse_singleton, singleton_append]
    cases hsegments : segments.reverse with
    | nil =>
      -- the first segment: what is left of the source takes its place
      obtain rfl : segments = [] := reverse_eq_nil_iff.mp hsegments
      have hsplit : splitRun [segment] run.glyphs = [{ run with fontId := segment.fontId }] := by
        have hall : segment.length = run.glyphs.length := by simpa using hlength
        rw [splitRun, splitRun, hall, take_length]
      rw [nil_append, hsplit, expandSegments]
      simp only [getElem?_length, set_length, bind_eq_bind, bind_some]
      rcases eq_nil_or_concat between with rfl | ⟨between, last, rfl⟩
      · obtain rfl : destinationStart = before.length := by
          simp only [length_nil] at hend
          omega
        refine ⟨[], spareBuffers, rfl, hspare, ?_⟩
        rw [nil_append, swap_self]
        rfl
      · rw [concat_eq_append] at hend ⊢
        obtain rfl : destinationStart = before.length + 1 + between.length := by
          simp only [length_append, length_cons, length_nil] at hend
          omega
        refine ⟨last :: between, spareBuffers, ?_, hspare, ?_⟩
        · rw [length_cons]
          omega
        · rw [append_assoc, singleton_append, swap_apart]
          rfl
    | cons next rest =>
      have hcount : (next :: rest).length = segments.length := by
        rw [← hsegments, length_reverse]
      have hne' : segments ≠ [] := by
        rintro rfl
        cases hsegments
      have hpos : 0 < segments.length := length_pos_iff.mpr hne'
      -- a later segment goes to the last place of those between
      rcases eq_nil_or_concat between with rfl | ⟨between, last, rfl⟩
      · simp only [length_nil] at hend
        omega
      rw [concat_eq_append] at hend ⊢
      rw [length_append, length_singleton] at hend
      have hindex : destinationStart + (next :: rest).length =
          (before ++ run :: between).length := by
        rw [hcount, length_append, length_cons]
        omega
      rw [expandSegments, getElem?_length]
      simp only [bind_eq_bind, bind_some]
      rw [if_pos ⟨by omega, le_rfl, by rw [hindex]; simp⟩, ← hsegments]
      obtain ⟨between', spareBuffers', hbetween, hspare', heq⟩ := ih hne' between
        (⟨segment.fontId, run.glyphs.drop (run.glyphs.length - segment.length)⟩ :: after)
        { run with glyphs := run.glyphs.take (run.glyphs.length - segment.length) }
        spareBuffers.dropLast
        (by rw [length_take]; omega) (by omega)
        (fun buffer hbuffer => hspare buffer (mem_of_mem_dropLast hbuffer))
      refine ⟨between', spareBuffers', hbetween, hspare', ?_⟩
      have hsum : (segments.map Segment.length).sum = run.glyphs.length - segment.length := by omega
      have hbuffer : spareBuffers.getLast?.getD [] = [] := by
        cases hlast : spareBuffers.getLast? with
        | none => rfl
        | some buffer => exact hspare buffer (mem_of_getLast? hlast)
      have hsplit : splitRun (segments ++ [segment]) run.glyphs =
          splitRun segments (run.glyphs.take (run.glyphs.length - segment.length)) ++
            [⟨segment.fontId, run.glyphs.drop (run.glyphs.length - segment.length)⟩] := by
        have hlast : (run.glyphs.drop (run.glyphs.length - segment.length)).length ≤
            segment.length := by
          rw [length_drop]
          omega
        rw [splitRun_concat, hsum, take_of_length_le hlast]
      have hruns : ∀ source last' : ShapedRun K,
          ((before ++ run :: (between ++ [last] ++ after)).set before.length source).set
            (destinationStart + segments.reverse.length) last' =
          before ++ source :: (between ++ last' :: after) := by
        intro source last'
        have hplace : destinationStart + segments.reverse.length =
            (before ++ source :: between).length := by
          rw [hsegments, hindex, length_append, length_append, length_cons, length_cons]
        have hregroup : before ++ source :: (between ++ [last] ++ after) =
            (before ++ source :: between) ++ last :: after := by simp
        rw [set_length, hplace, hregroup, set_length, append_assoc, cons_append]
      rw [length_take, Nat.min_eq_left (Nat.sub_le ..)] at heq
      rw [hruns, hbuffer, nil_append, take_length, drop_length, append_nil,
        heq, hsplit, append_assoc, singleton_append]

variable {runs : List (ShapedRun K)} {segmentsByRun : List (List Segment)}

lemma length_le_sum (h : Forall₂ Splits runs segmentsByRun) :
    runs.length ≤ (segmentsByRun.map List.length).sum := by
  induction h with
  | nil => exact le_rfl
  | cons hrun _ ih =>
    have hpos := length_pos_iff.mpr hrun.nonempty
    rw [length_cons, map_cons, sum_cons]
    omega

lemma expand_eq (h : Forall₂ Splits runs segmentsByRun) (destinationEnd : ℕ)
    (between after : List (ShapedRun K)) (spareBuffers : List (List (ShapedGlyph K)))
    (hend : destinationEnd = (segmentsByRun.map List.length).sum)
    (hbetween : runs.length + between.length = destinationEnd)
    (hspare : ∀ buffer ∈ spareBuffers, buffer = []) :
    ∃ spareBuffers', expand segmentsByRun.reverse destinationEnd
        ⟨runs ++ (between ++ after), spareBuffers⟩ =
      some ⟨splitRuns runs segmentsByRun ++ after, spareBuffers'⟩ := by
  induction runs using reverseRecOn generalizing segmentsByRun destinationEnd between after
    spareBuffers with
  | nil =>
    obtain rfl := forall₂_nil_left_iff.mp h
    obtain rfl : between = [] := by
      rw [← length_eq_zero_iff]
      simp only [map_nil, sum_nil] at hend
      omega
    exact ⟨spareBuffers, rfl⟩
  | append_singleton runs run ih =>
    rcases eq_nil_or_concat segmentsByRun with rfl | ⟨segmentsByRun, segments, rfl⟩
    · simp at h
    rw [concat_eq_append] at h hend ⊢
    have hlength : runs.length = segmentsByRun.length := by
      simpa using h.length_eq
    have hruns : Forall₂ Splits runs segmentsByRun := by
      have htake := forall₂_take_append _ _ _ h
      rwa [← hlength, take_left' rfl] at htake
    have hrun : Splits run segments := by
      have hdrop := forall₂_drop_append _ _ _ h
      rw [← hlength, drop_left' rfl] at hdrop
      exact (forall₂_cons.mp hdrop).1
    -- each source before this one has a destination of its own
    have hcount := length_le_sum hruns
    rw [map_append, sum_append, map_singleton, sum_singleton] at hend
    rw [length_append, length_singleton] at hbetween
    have hdestination : destinationEnd - segments.length =
        (segmentsByRun.map List.length).sum := by omega
    obtain ⟨between', spareBuffers', hplace, hspare', heq⟩ := expandSegments_eq hrun.nonempty
      (destinationEnd - segments.length) runs between after run spareBuffers hrun.length
      (by omega) (by omega) hspare
    obtain ⟨spareBuffers'', heq'⟩ := ih hruns (destinationEnd - segments.length) between'
      (splitRun segments run.glyphs ++ after) spareBuffers' hdestination hplace hspare'
    refine ⟨spareBuffers'', ?_⟩
    rw [reverse_append, reverse_singleton, singleton_append, expand,
      if_pos (by omega), length_reverse, ← hlength, append_assoc, singleton_append,
      getElem?_length]
    simp only [bind_eq_bind, bind_some]
    rw [heq]
    simp only [bind_some]
    rw [heq', splitRuns, splitRuns, zipWith_append hlength, flatten_append, append_assoc]
    simp

end RunVector

lemma glyphStream_pushGlyph (glyph : ShapedGlyph K) :
    glyphStream (pushGlyph runs fontId glyph) = glyphStream runs ++ [(fontId, glyph)] := by
  rw [pushGlyph]
  rcases eq_nil_or_concat runs with rfl | ⟨before, run, rfl⟩
  · rfl
  · rw [concat_eq_append, getLast?_concat, dropLast_concat]
    dsimp only
    split
    · next hfont =>
      rw [glyphStream_append, glyphStream_append, append_assoc, ← hfont]
      simp [glyphStream]
    · rw [glyphStream_append _ [_]]
      rfl

section Line

variable [AddZeroClass K]

lemma foldl_visits (stream : List (FontId × ShapedGlyph K)) (walk : ReplacementWalk K)
    (runs : List (ShapedRun K)) :
    let rebuilt := stream.foldl (fun (walk, runs) (fontId, glyph) =>
      match walk.visit fontId glyph with
      | (walk, none) => (walk, runs)
      | (walk, some (fontId, glyph)) => (walk, pushGlyph runs fontId glyph)) (walk, runs)
    rebuilt.1 = (walk.visits stream).1 ∧
      glyphStream rebuilt.2 = glyphStream runs ++ (walk.visits stream).2 := by
  induction stream generalizing walk runs with
  | nil => exact ⟨rfl, (append_nil _).symm⟩
  | cons glyph stream ih =>
    obtain ⟨fontId, glyph⟩ := glyph
    rw [foldl_cons, ReplacementWalk.visits]
    dsimp only
    cases walk.visit fontId glyph with
    | mk walk' kept =>
      cases kept with
      | none => exact ih walk' runs
      | some kept =>
        obtain ⟨hwalk, hstream⟩ := ih walk' (pushGlyph runs kept.1 kept.2)
        refine ⟨hwalk, hstream.trans ?_⟩
        rw [glyphStream_pushGlyph, append_assoc]
        rfl

lemma reference_eq (layout : LineLayout K) (replacements : List (Replacement K)) :
    glyphStream (reference layout replacements).runs =
        ((ReplacementWalk.new replacements).visits (glyphStream layout.runs)).2 ∧
      (reference layout replacements).width = layout.width +
        ((ReplacementWalk.new replacements).visits (glyphStream layout.runs)).1.shift := by
  obtain ⟨hwalk, hstream⟩ := foldl_visits (glyphStream layout.runs) (.new replacements) []
  exact ⟨hstream, congrArg (fun walk => layout.width + ReplacementWalk.shift walk) hwalk⟩

lemma visits_eq_replacedStream (walk : ReplacementWalk K) (stream : List (FontId × ShapedGlyph K))
    (hfit : ReplacementsFit (walk.originalIndex + stream.length)
      (max walk.originalIndex walk.consumedEnd) walk.replacements) :
    (walk.visits stream).2 = replacedStream walk.shift (max walk.originalIndex walk.consumedEnd)
        (stream.drop (walk.consumedEnd - walk.originalIndex)) walk.replacements ∧
      (walk.visits stream).1.shift =
        walk.replacements.foldl (fun shift replacement => shift + replacement.widthDelta)
          walk.shift := by
  induction stream generalizing walk with
  | nil =>
    have hnil : walk.replacements = [] := by
      cases hreplacements : walk.replacements with
      | nil => rfl
      | cons replacement replacements =>
        rw [hreplacements] at hfit
        obtain ⟨hstart, hlt, hstop, -⟩ := hfit
        simp only [length_nil, Nat.add_zero] at hstop
        omega
    rw [hnil, drop_nil]
    exact ⟨rfl, rfl⟩
  | cons glyph stream ih =>
    obtain ⟨fontId, glyph⟩ := glyph
    have hcount : walk.originalIndex + ((fontId, glyph) :: stream).length =
        walk.originalIndex + 1 + stream.length := by
      rw [length_cons]
      omega
    rw [hcount] at hfit
    rw [ReplacementWalk.visits, ReplacementWalk.visit]
    dsimp only
    by_cases hconsumed : walk.originalIndex < walk.consumedEnd
    · -- the glyph is covered by the last replacement
      have hmax : max walk.originalIndex walk.consumedEnd = walk.consumedEnd := by omega
      have hmax' : max (walk.originalIndex + 1) walk.consumedEnd = walk.consumedEnd := by omega
      have hdrop : walk.consumedEnd - walk.originalIndex =
          walk.consumedEnd - (walk.originalIndex + 1) + 1 := by omega
      rw [hmax, ← hmax'] at hfit
      obtain ⟨hstream, hshift⟩ := ih { walk with originalIndex := walk.originalIndex + 1 } hfit
      rw [if_pos hconsumed, hmax, hdrop, drop_succ_cons]
      dsimp only at hstream
      rw [hmax'] at hstream
      exact ⟨hstream, hshift⟩
    · have hmax : max walk.originalIndex walk.consumedEnd = walk.originalIndex := by omega
      have hmax' : max (walk.originalIndex + 1) walk.consumedEnd = walk.originalIndex + 1 := by omega
      have hdrop : walk.consumedEnd - walk.originalIndex = 0 := by omega
      have hdrop' : walk.consumedEnd - (walk.originalIndex + 1) = 0 := by omega
      rw [hmax] at hfit
      rw [if_neg hconsumed, hmax, hdrop, drop_zero]
      cases hreplacements : walk.replacements with
      | nil =>
        obtain ⟨hstream, hshift⟩ := ih { walk with originalIndex := walk.originalIndex + 1 }
          (by rw [hreplacements]; trivial)
        dsimp only at hstream hshift
        rw [hmax', hdrop', drop_zero, hreplacements] at hstream
        rw [hreplacements] at hshift
        exact ⟨congrArg (_ :: ·) hstream, hshift⟩
      | cons replacement replacements =>
        rw [hreplacements] at hfit
        obtain ⟨hstart, hlt, hstop, hrest⟩ := hfit
        dsimp only
        by_cases hhere : replacement.start = walk.originalIndex
        · have hstopMax : max (walk.originalIndex + 1) replacement.stop = replacement.stop := by
            omega
          have hstopDrop : replacement.stop - walk.originalIndex =
              replacement.stop - (walk.originalIndex + 1) + 1 := by omega
          obtain ⟨hstream, hshift⟩ := ih
            ⟨replacements, walk.originalIndex + 1, replacement.stop,
              walk.shift + replacement.widthDelta⟩ (by rwa [hstopMax])
          dsimp only at hstream
          rw [hstopMax] at hstream
          rw [if_pos hhere, replacedStream, hhere, Nat.sub_self, hstopDrop, drop_succ_cons]
          exact ⟨congrArg (_ :: ·) hstream, hshift⟩
        · have htake : replacement.start - walk.originalIndex =
              replacement.start - (walk.originalIndex + 1) + 1 := by omega
          have hstopDrop : replacement.stop - walk.originalIndex =
              replacement.stop - (walk.originalIndex + 1) + 1 := by omega
          obtain ⟨hstream, hshift⟩ := ih { walk with originalIndex := walk.originalIndex + 1 }
            (by rw [hreplacements, hmax']; exact ⟨by omega, hlt, hstop, hrest⟩)
          dsimp only at hstream hshift
          rw [hmax', hdrop', drop_zero, hreplacements] at hstream
          rw [hreplacements] at hshift
          rw [if_neg hhere, replacedStream, htake, hstopDrop, take_succ_cons, drop_succ_cons]
          exact ⟨congrArg (_ :: ·) hstream, hshift⟩

/-- Replacing glyphs in place leaves the line that one walk rebuilds: each glyph outside the ranges
once, in the font of its run, and for each range its replacement, all of them shifted by the changes
of width before them. -/
theorem applyReplacements_rebuilds (layout : LineLayout K) (replacements : List (Replacement K))
    (hfit : ReplacementsFit (glyphStream layout.runs).length 0 replacements) :
    ∃ replaced, applyReplacements layout replacements = some replaced ∧
      glyphStream replaced.runs = glyphStream (reference layout replacements).runs ∧
      replaced = { reference layout replacements with runs := replaced.runs } ∧
      glyphStream replaced.runs = replacedStream 0 0 (glyphStream layout.runs) replacements ∧
      replaced.width = layout.width +
        replacements.foldl (fun shift replacement => shift + replacement.widthDelta) 0 := by
  obtain ⟨hstream, hwidth⟩ := reference_eq layout replacements
  obtain ⟨hvisits, hshift⟩ := visits_eq_replacedStream (.new replacements)
    (glyphStream layout.runs) (by simpa [ReplacementWalk.new] using hfit)
  have hvisits' : ((ReplacementWalk.new replacements).visits (glyphStream layout.runs)).2 =
      replacedStream 0 0 (glyphStream layout.runs) replacements := hvisits
  have hshift' : ((ReplacementWalk.new replacements).visits (glyphStream layout.runs)).1.shift =
      replacements.foldl (fun shift replacement => shift + replacement.widthDelta) 0 := hshift
  rw [hvisits'] at hstream
  rw [hshift'] at hwidth
  rw [applyReplacements]
  split
  · next hempty =>
    obtain rfl : replacements = [] := isEmpty_iff.mp hempty
    have hsame : replacedStream 0 0 (glyphStream layout.runs) [] = glyphStream layout.runs := by
      rw [replacedStream]
      refine (map_congr_left fun glyph _ => ?_).trans (List.map_id _)
      simp [ShapedGlyph.shifted]
    have hwidth' : layout.width = (reference layout []).width := by
      rw [hwidth]
      exact (add_zero _).symm
    refine ⟨layout, rfl, ?_, ?_, hsame.symm, hwidth'.trans hwidth⟩
    · rw [hstream, hsame]
    · rw [show reference layout [] = { layout with
        runs := (reference layout []).runs
        width := (reference layout []).width } from rfl, ← hwidth']
  · have hholds := retainRuns_holds replacements layout.runs
    have hcount := RunVector.length_le_sum hholds.splits
    have htake : ((retainRuns replacements layout.runs).runs ++
        List.replicate (((retainRuns replacements layout.runs).segmentsByRun.map List.length).sum -
          (retainRuns replacements layout.runs).runs.length) (⟨0, []⟩ : ShapedRun K)).length =
        ((retainRuns replacements layout.runs).segmentsByRun.map List.length).sum := by
      rw [length_append, length_replicate]
      omega
    obtain ⟨spareBuffers, hexpand⟩ := RunVector.expand_eq hholds.splits _
      (List.replicate (((retainRuns replacements layout.runs).segmentsByRun.map List.length).sum -
        (retainRuns replacements layout.runs).runs.length) (⟨0, []⟩ : ShapedRun K)) []
      (retainRuns replacements layout.runs).spareBuffers rfl
      (by rw [length_replicate]; omega) hholds.spareBuffers
    rw [append_nil, append_nil] at hexpand
    dsimp only
    rw [take_of_length_le htake.le]
    simp only [bind_eq_bind]
    rw [hexpand]
    have hwalk : (retainRuns replacements layout.runs).walk.shift =
        replacements.foldl (fun shift replacement => shift + replacement.widthDelta) 0 := by
      rw [hholds.walked, hshift']
    have hrebuilt : glyphStream (splitRuns (retainRuns replacements layout.runs).runs
        (retainRuns replacements layout.runs).segmentsByRun) =
        replacedStream 0 0 (glyphStream layout.runs) replacements := by
      rw [hholds.stream, hvisits']
    refine ⟨_, rfl, ?_, ?_, hrebuilt, congrArg (layout.width + ·) hwalk⟩
    · rw [hstream]
      exact hrebuilt
    · rw [hwalk, ← hwidth]
      rfl

end Line

def threeRuns : LineLayout ℚ where
  fontSize := 14
  width := 40
  ascent := 11
  descent := 3
  runs := [⟨0, [⟨1, ⟨0, 2⟩, 0, false⟩, ⟨2, ⟨10, 2⟩, 2, false⟩]⟩, ⟨1, []⟩,
    ⟨2, [⟨3, ⟨20, 2⟩, 4, false⟩, ⟨4, ⟨30, 2⟩, 6, false⟩]⟩]
  len := 8

def acrossRuns : Replacement ℚ := ⟨1, 3, 9, ⟨999, ⟨11, 7⟩, 2, true⟩, -3⟩

theorem applyReplacements_rebuilds_threeRuns :
    ∃ replaced, applyReplacements threeRuns [acrossRuns] = some replaced ∧
      glyphStream replaced.runs = [(0, ⟨1, ⟨0, 2⟩, 0, false⟩), (9, ⟨999, ⟨11, 7⟩, 2, true⟩),
        (2, ⟨4, ⟨27, 2⟩, 6, false⟩)] ∧ replaced.width = 37 := by
  obtain ⟨replaced, hreplaced, -, -, hstream, hwidth⟩ :=
    applyReplacements_rebuilds threeRuns [acrossRuns] (by simp [ReplacementsFit, acrossRuns]; decide)
  refine ⟨replaced, hreplaced, hstream.trans (by with_unfolding_all decide),
    hwidth.trans (by with_unfolding_all decide)⟩

end GpuiFast
