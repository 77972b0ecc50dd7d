import GpuiFast.DispatchTree
import GpuiFast.Keymap

/-! What a keystroke does after the keystrokes still pending: run bindings, wait for more, or have
what was pending replayed. A replay keeps only the last of the keystrokes it stands for. -/

namespace GpuiFast

open List Option

structure Replay where
  keystroke : Keystroke
  bindings : List KeyBinding

structure DispatchResult where
  pending : List Keystroke
  pendingHasBinding : Bool
  bindings : List KeyBinding
  toReplay : List Replay
  contextStack : List KeyContext

namespace DispatchTree

variable {L : Type*} (tree : DispatchTree KeyContext L) (keymap : Keymap) (windows : Bool)
  (path : List ℕ)

def contextsOn : List KeyContext := path.filterMap (contextOf tree.nodes)

def bindingsForInput (input : List Keystroke) : List KeyBinding × Bool × List KeyContext :=
  let contexts := tree.contextsOn path
  let found := keymap.bindingsForInput windows input contexts
  (found.1, found.2, contexts)

/-- The bindings of exactly `input`. -/
def bindingsOf (input : List Keystroke) : List KeyBinding :=
  (tree.bindingsForInput keymap windows path input).1

/-- Whether the keymap has bindings pending on `input`. -/
def awaitsMore (input : List Keystroke) : Bool :=
  (tree.bindingsForInput keymap windows path input).2.1

/-- The last place below `stop` up to which `input` has a binding. -/
def lastBound (input : List Keystroke) : (stop : ℕ) → Option ℕ
  | 0 => none
  | last + 1 =>
    if (tree.bindingsOf keymap windows path (input.take (last + 1))).isEmpty then
      lastBound input last
    else some last

/-- Turns the longest bound part at the front of `input`, or else its first keystroke, into a
replay. There is none of an empty input. -/
def replayPrefix (input : List Keystroke) : Option (List Keystroke × List Replay) :=
  match tree.lastBound keymap windows path input input.length with
  | some last =>
    input[last]?.map (fun keystroke => (input.drop (last + 1),
      [⟨keystroke, tree.bindingsOf keymap windows path (input.take (last + 1))⟩]))
  | none =>
    match input with
    | [] => none
    | keystroke :: input => some (input, [⟨keystroke, []⟩])

variable {tree keymap windows path}

variable {input : List Keystroke}

lemma replayPrefix_length {suffix : List Keystroke} {toReplay : List Replay}
    (h : tree.replayPrefix keymap windows path input = some (suffix, toReplay)) :
    suffix.length < input.length := by
  unfold replayPrefix at h
  split at h
  · obtain ⟨keystroke, hkeystroke, heq⟩ := map_eq_some_iff.mp h
    obtain ⟨hlt, -⟩ := List.getElem?_eq_some_iff.mp hkeystroke
    obtain ⟨rfl, -⟩ := Prod.mk.inj heq
    rw [length_drop]
    omega
  · split at h
    · cases h
    · simp only [some.injEq, Prod.mk.injEq] at h
      rw [← h.1, length_cons]
      omega

variable (tree keymap windows path)

def dispatchKey (input : List Keystroke) (keystroke : Keystroke) : Option DispatchResult :=
  let found := tree.bindingsForInput keymap windows path (input ++ [keystroke])
  if found.2.1 then
    some ⟨input ++ [keystroke], !found.1.isEmpty, [], [], found.2.2⟩
  else if !found.1.isEmpty then some ⟨[], false, found.1, [], found.2.2⟩
  else if (input ++ [keystroke]).length = 1 then some ⟨[], false, [], [], found.2.2⟩
  else
    match _hreplay : tree.replayPrefix keymap windows path input with
    | none => none
    | some (suffix, toReplay) =>
      (dispatchKey suffix keystroke).map (fun result =>
        { result with toReplay := toReplay ++ result.toReplay })
termination_by input.length
decreasing_by exact replayPrefix_length _hreplay

def flushDispatch (input : List Keystroke) : Option (List Replay) :=
  match _hreplay : tree.replayPrefix keymap windows path input with
  | none => none
  | some (suffix, toReplay) =>
    if suffix.isEmpty then some toReplay
    else (flushDispatch suffix).map (fun replays => toReplay ++ replays)
termination_by input.length
decreasing_by exact replayPrefix_length _hreplay

/-- `segment`, at the front of the keystrokes `left`, stands behind a replay: the longest part of
them with a binding, or a single keystroke when no part has one. -/
inductive StandsBehind (left : List Keystroke) : List Keystroke → Replay → Prop
  | bound {segment : List Keystroke} {keystroke : Keystroke}
      (last : segment.getLast? = some keystroke)
      (hbound : tree.bindingsOf keymap windows path segment ≠ [])
      (longest : ∀ longer, longer <+: left → segment.length < longer.length →
        tree.bindingsOf keymap windows path longer = []) :
      StandsBehind left segment ⟨keystroke, tree.bindingsOf keymap windows path segment⟩
  | unbound {keystroke : Keystroke}
      (none : ∀ segment, segment <+: left → segment ≠ [] →
        tree.bindingsOf keymap windows path segment = []) :
      StandsBehind left [keystroke] ⟨keystroke, []⟩

inductive Splits : (left : List Keystroke) → List Replay → (rest : List Keystroke) → Prop
  | nil (rest : List Keystroke) : Splits rest [] rest
  | cons {segment left rest : List Keystroke} {replay : Replay} {replays : List Replay}
      (first : tree.StandsBehind keymap windows path (segment ++ left) segment replay)
      (others : Splits left replays rest) : Splits (segment ++ left) (replay :: replays) rest

/-- What becomes of the keystrokes that are not replayed: they are kept pending where bindings are
pending on them, else the bindings returned consume them, or they are the one keystroke that matches
nothing. -/
inductive Settles (keystroke : Keystroke) (result : DispatchResult) : List Keystroke → Prop
  | pending (rest : List Keystroke) (hawaits : tree.awaitsMore keymap windows path rest = true)
      (hpending : result.pending = rest) (hbindings : result.bindings = [])
      (hbound : result.pendingHasBinding = true ↔
        tree.bindingsOf keymap windows path rest ≠ []) : Settles keystroke result rest
  | consumed (rest : List Keystroke) (hawaits : tree.awaitsMore keymap windows path rest = false)
      (hpending : result.pending = [])
      (hbindings : result.bindings = tree.bindingsOf keymap windows path rest)
      (hbound : result.bindings ≠ []) : Settles keystroke result rest
  | unmatched (hawaits : tree.awaitsMore keymap windows path [keystroke] = false)
      (hpending : result.pending = []) (hbindings : result.bindings = [])
      (hunbound : tree.bindingsOf keymap windows path [keystroke] = []) :
      Settles keystroke result [keystroke]

variable {tree keymap windows path}

variable {stop : ℕ}

lemma lastBound_some {last : ℕ} (h : tree.lastBound keymap windows path input stop = some last) :
    last < stop ∧ tree.bindingsOf keymap windows path (input.take (last + 1)) ≠ [] ∧
      ∀ n, last + 1 < n → n ≤ stop → tree.bindingsOf keymap windows path (input.take n) = [] := by
  induction stop with
  | zero => cases h
  | succ stop ih =>
    rw [lastBound] at h
    split at h
    · rename_i hempty
      obtain ⟨hlt, hbound, hlonger⟩ := ih h
      refine ⟨by omega, hbound, fun n hn hstop => ?_⟩
      rcases Nat.lt_or_ge stop n with hlast | hle
      · obtain rfl : n = stop + 1 := by omega
        exact isEmpty_iff.mp hempty
      · exact hlonger n hn hle
    · rename_i hbound
      obtain rfl := some.inj h
      refine ⟨by omega, fun heq => hbound (isEmpty_iff.mpr heq), fun n hn hstop => ?_⟩
      omega

lemma lastBound_none (h : tree.lastBound keymap windows path input stop = none) :
    ∀ n, 0 < n → n ≤ stop → tree.bindingsOf keymap windows path (input.take n) = [] := by
  induction stop with
  | zero =>
    intro n hpos hstop
    omega
  | succ stop ih =>
    rw [lastBound] at h
    split at h
    · rename_i hempty
      intro n hpos hstop
      rcases Nat.lt_or_ge stop n with hlast | hle
      · obtain rfl : n = stop + 1 := by omega
        exact isEmpty_iff.mp hempty
      · exact ih h n hpos hle
    · cases h

lemma replayPrefix_stands {more : List Keystroke} (hinput : input ≠ [])
    (hmore : ∀ longer, longer <+: input ++ more → input.length < longer.length →
      tree.bindingsOf keymap windows path longer = []) :
    ∃ segment suffix replay, input = segment ++ suffix ∧
      tree.replayPrefix keymap windows path input = some (suffix, [replay]) ∧
      tree.StandsBehind keymap windows path (input ++ more) segment replay := by
  have hreplay : ∀ part, part <+: input ++ more → part.length ≤ input.length →
      part = input.take part.length := by
    intro part hpart hlength
    rw [prefix_iff_eq_take.mp hpart, length_take, length_append,
      Nat.min_eq_left (by omega), take_append_of_le_length hlength]
  unfold replayPrefix
  cases hlast : tree.lastBound keymap windows path input input.length with
  | some last =>
    obtain ⟨hlt, hbound, hlonger⟩ := lastBound_some hlast
    refine ⟨input.take (last + 1), input.drop (last + 1), ⟨input[last], _⟩,
      (take_append_drop _ _).symm, ?_, .bound ?_ hbound ?_⟩
    · simp only [getElem?_eq_getElem hlt, map_some]
    · rw [getLast?_eq_getElem?, length_take, Nat.min_eq_left (by omega), Nat.add_sub_cancel,
        getElem?_take_of_lt (by omega), getElem?_eq_getElem hlt]
    · intro longer hleft hlength
      rw [length_take, Nat.min_eq_left (by omega)] at hlength
      rcases Nat.lt_or_ge input.length longer.length with hpast | hle
      · exact hmore longer hleft hpast
      · rw [hreplay longer hleft hle]
        exact hlonger _ hlength hle
  | none =>
    have hnone := lastBound_none hlast
    cases input with
    | nil => exact absurd rfl hinput
    | cons keystroke input =>
      refine ⟨[keystroke], input, ⟨keystroke, []⟩, rfl, rfl, .unbound fun segment hleft hne => ?_⟩
      have hpos := length_pos_iff.mpr hne
      rcases Nat.lt_or_ge (keystroke :: input).length segment.length with hpast | hle
      · exact hmore segment hleft hpast
      · rw [hreplay segment hleft hle]
        exact hnone _ hpos hle

lemma dispatchKey_splits (input : List Keystroke) (keystroke : Keystroke) :
    ∃ result rest, tree.dispatchKey keymap windows path input keystroke = some result ∧
      tree.Splits keymap windows path (input ++ [keystroke]) result.toReplay rest ∧
      tree.Settles keymap windows path keystroke result rest := by
  induction hlength : input.length using Nat.strong_induction_on generalizing input with
  | _ n ih =>
    rw [dispatchKey]
    split
    · rename_i hawaits
      refine ⟨_, _, rfl, .nil _, .pending _ hawaits rfl rfl ?_⟩
      simp [bindingsOf]
    · rename_i hsettled
      have hawaits : tree.awaitsMore keymap windows path (input ++ [keystroke]) = false :=
        Bool.eq_false_iff.mpr hsettled
      split
      · rename_i hbound
        refine ⟨_, _, rfl, .nil _, .consumed _ hawaits rfl rfl ?_⟩
        simpa using hbound
      · rename_i hunbound
        have hempty : tree.bindingsOf keymap windows path (input ++ [keystroke]) = [] := by
          simpa [bindingsOf] using hunbound
        split
        · rename_i hone
          have hinput : input = [] := by simpa using hone
          subst hinput
          exact ⟨_, _, rfl, .nil _, .unmatched hawaits rfl rfl hempty⟩
        · rename_i hmore
          have hinput : input ≠ [] := by
            rintro rfl
            exact hmore rfl
          -- The keystrokes with the new one have no binding, so the longest part that has one is
          -- found without it.
          have hlonger : ∀ longer, longer <+: input ++ [keystroke] →
              input.length < longer.length → tree.bindingsOf keymap windows path longer = [] := by
            intro longer hleft hlt
            have hle := hleft.length_le
            rw [hleft.eq_of_length (by simp at hle ⊢; omega)]
            exact hempty
          obtain ⟨segment, suffix, replay, hsplit, hreplay, hstands⟩ :=
            replayPrefix_stands hinput hlonger
          have hshorter := replayPrefix_length hreplay
          obtain ⟨result, rest, hresult, hsplits, hsettles⟩ :=
            ih suffix.length (by omega) suffix rfl
          split
          · rename_i hnone
            rw [hreplay] at hnone
            cases hnone
          · rename_i suffix' toReplay hsome
            rw [hreplay] at hsome
            simp only [some.injEq, Prod.mk.injEq] at hsome
            obtain ⟨rfl, rfl⟩ := hsome
            rw [hresult, map_some]
            refine ⟨_, rest, rfl, ?_, ?_⟩
            · rw [hsplit, append_assoc] at hstands ⊢
              exact .cons hstands hsplits
            · cases hsettles with
              | pending rest hawaits hpending hbindings hbound =>
                exact .pending _ hawaits hpending hbindings hbound
              | consumed rest hawaits hpending hbindings hbound =>
                exact .consumed _ hawaits hpending hbindings hbound
              | unmatched hawaits hpending hbindings hunbound =>
                exact .unmatched hawaits hpending hbindings hunbound

lemma flushDispatch_splits (hinput : input ≠ []) :
    ∃ replays, tree.flushDispatch keymap windows path input = some replays ∧
      tree.Splits keymap windows path input replays [] := by
  induction hlength : input.length using Nat.strong_induction_on generalizing input with
  | _ n ih =>
    have hlonger : ∀ longer, longer <+: input ++ [] → input.length < longer.length →
        tree.bindingsOf keymap windows path longer = [] := by
      intro longer hleft hlt
      have hle := hleft.length_le
      rw [append_nil] at hle
      omega
    obtain ⟨segment, suffix, replay, hsplit, hreplay, hstands⟩ :=
      replayPrefix_stands hinput hlonger
    have hshorter := replayPrefix_length hreplay
    rw [append_nil, hsplit] at hstands
    rw [flushDispatch]
    split
    · rename_i hnone
      rw [hreplay] at hnone
      cases hnone
    · rename_i suffix' toReplay hsome
      rw [hreplay] at hsome
      simp only [some.injEq, Prod.mk.injEq] at hsome
      obtain ⟨rfl, rfl⟩ := hsome
      split
      · rename_i hempty
        obtain rfl := isEmpty_iff.mp hempty
        refine ⟨_, rfl, ?_⟩
        rw [hsplit]
        exact .cons hstands (.nil [])
      · rename_i hne
        obtain ⟨replays, hreplays, hsplits⟩ := ih suffix.length (by omega)
          (fun heq => hne (isEmpty_iff.mpr heq)) rfl
        rw [hreplays, map_some, hsplit]
        exact ⟨_, rfl, .cons hstands hsplits⟩

/-- Dispatching a keystroke ends, and neither it nor a flush loses or repeats a keystroke. -/
theorem dispatch_conserves (tree : DispatchTree KeyContext L) (keymap : Keymap) (windows : Bool)
    (path : List ℕ) :
    (∀ input keystroke, ∃ result rest,
      tree.dispatchKey keymap windows path input keystroke = some result ∧
      tree.Splits keymap windows path (input ++ [keystroke]) result.toReplay rest ∧
      tree.Settles keymap windows path keystroke result rest) ∧
    ∀ first others, ∃ replays,
      tree.flushDispatch keymap windows path (first :: others) = some replays ∧
      tree.Splits keymap windows path (first :: others) replays [] :=
  ⟨dispatchKey_splits, fun first others => flushDispatch_splits (cons_ne_nil first others)⟩

end DispatchTree

end GpuiFast
