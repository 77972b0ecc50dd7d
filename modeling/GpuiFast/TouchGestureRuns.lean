import GpuiFast.TouchGestures

/-! Whatever touches, offers and ticks come in whatever order, scroll events form gestures that are
closed before the next one starts, momentum runs only between touches, and a touch is at most one of
a tap, a scroll gesture, a long press and a touch drag. -/

namespace GpuiFast

open List

inductive ScrollStream where
  | quiet
  | gesture
  | momentum

/-- A scroll event, with whether a fling is in progress after the call that gave it. A gesture is
started, moves, and is cancelled or ends; one that flings moves on and ends once more. -/
def ScrollStream.next : ScrollStream → TouchPhase × Bool → Option ScrollStream
  | quiet, (.started, _) => some gesture
  | gesture, (.moved, _) => some gesture
  | gesture, (.cancelled, _) => some quiet
  | gesture, (.ended, flung) => some (if flung then momentum else quiet)
  | momentum, (.moved, _) => some momentum
  | momentum, (.ended, _) => some quiet
  | _, _ => none

inductive TouchKind where
  | idle
  | pending
  | scrolling
  | longPressing
  | touchDragging
  deriving DecidableEq

def TouchGestureState.kind {F : Type} : TouchGestureState F → TouchKind
  | .idle => .idle
  | .pending .. => .pending
  | .panning .. | .caught _ => .scrolling
  | .longPressing _ => .longPressing
  | .touchDragging _ => .touchDragging

/-- The touch that is watched after an operation: the first one to start while none is, until an
operation ends or cancels it. -/
def TouchOp.watches {F : Type} (watched : Option ℕ) : TouchOp F → Option ℕ
  | .event touch _ =>
    match touch.phase with
    | .started => some (watched.getD touch.id)
    | .moved => watched
    | .ended | .cancelled => if watched = some touch.id then none else watched
  | _ => watched

/-- What a touch gave: how many taps and scroll gestures, how many claimed long presses and touch
drags, how often these were closed, and whether an operation ended or cancelled the touch. -/
structure TouchOutcome where
  taps : ℕ := 0
  scrolls : ℕ := 0
  longPresses : ℕ := 0
  touchDrags : ℕ := 0
  scrollsClosed : ℕ := 0
  longPressesClosed : ℕ := 0
  touchDragsClosed : ℕ := 0
  ended : Bool := false

namespace TouchOutcome

variable {F : Type}

def note (t : TouchOutcome) : RecognizedTouchGesture F → TouchOutcome
  | .tap .. => { t with taps := t.taps + 1 }
  | .scroll _ _ .started => { t with scrolls := t.scrolls + 1 }
  | .scroll _ _ .ended | .scroll _ _ .cancelled =>
    -- the end of a fling closes no gesture of the touch
    if t.scrollsClosed < t.scrolls then { t with scrollsClosed := t.scrollsClosed + 1 } else t
  | .longPress .ended .. | .longPress .cancelled .. =>
    { t with longPressesClosed := t.longPressesClosed + 1 }
  | .touchDrag .ended .. | .touchDrag .cancelled .. =>
    { t with touchDragsClosed := t.touchDragsClosed + 1 }
  | _ => t

def claim (t : TouchOutcome) : TouchKind → TouchKind → TouchOutcome
  | .pending, .longPressing => { t with longPresses := t.longPresses + 1 }
  | .pending, .touchDragging => { t with touchDrags := t.touchDrags + 1 }
  | _, _ => t

/-- At most one outcome, closed exactly once if it is to be closed and the touch ended. -/
structure Single (t : TouchOutcome) : Prop where
  one : t.taps + t.scrolls + t.longPresses + t.touchDrags ≤ 1
  scrollsClosed : t.scrollsClosed = if t.ended then t.scrolls else 0
  longPressesClosed : t.longPressesClosed = if t.ended then t.longPresses else 0
  touchDragsClosed : t.touchDragsClosed = if t.ended then t.touchDrags else 0

end TouchOutcome

structure TouchObserver where
  watched : Option ℕ := none
  scrolls : List (TouchPhase × Bool) := []
  touches : List TouchOutcome := []

def scrollPhases {F : Type} (recognized : List (RecognizedTouchGesture F)) : List TouchPhase :=
  recognized.filterMap (fun gesture =>
    match gesture with
    | .scroll _ _ phase => some phase
    | _ => none)

namespace TouchObserver

variable {F : Type}

/-- Takes in an operation: what the touch was taken for before and after it, whether a fling is in
progress after it, and what it recognized. Which touch that is, and when it starts and ends, is read
off the operations. -/
def observe (o : TouchObserver) (op : TouchOp F) (before after : TouchKind) (flung : Bool)
    (recognized : List (RecognizedTouchGesture F)) : TouchObserver where
  watched := op.watches o.watched
  scrolls := o.scrolls ++ (scrollPhases recognized).map (fun phase => (phase, flung))
  touches :=
    (if o.watched = none ∧ op.watches o.watched ≠ none then {} :: o.touches
      else o.touches).modifyHead (fun t =>
        let t := (recognized.foldl TouchOutcome.note t).claim before after
        if o.watched ≠ none ∧ op.watches o.watched = none then { t with ended := true } else t)

end TouchObserver

namespace TouchGestureRecognizer

variable {F : Type} [TouchFloat F]

def run (r : TouchGestureRecognizer F) (o : TouchObserver) :
    List (TouchOp F) → TouchGestureRecognizer F × TouchObserver
  | [] => (r, o)
  | op :: ops =>
    let (r', recognized) := r.step op
    r'.run (o.observe op r.state.kind r'.state.kind r'.momentum.isSome recognized) ops

end TouchGestureRecognizer

section

variable {F : Type}

inductive TouchMove : TouchKind → Bool → List (RecognizedTouchGesture F) → TouchKind → Bool → Prop
  | none (k : TouchKind) (flung : Bool) : TouchMove k flung [] k flung
  | accept : TouchMove .idle false [] .pending false
  | catchFling (p q d e : Point F) :
    TouchMove .idle true [.scroll p d .ended, .scroll q e .started] .scrolling false
  | startPan (p d : Point F) (flung : Bool) :
    TouchMove .pending flung [.scroll p d .started] .scrolling flung
  | movePan (p d : Point F) (flung : Bool) :
    TouchMove .scrolling flung [.scroll p d .moved] .scrolling flung
  | endPan (p d : Point F) (flung flung' : Bool) :
    TouchMove .scrolling flung [.scroll p d .ended] .idle flung'
  | cancelPan (p d : Point F) (flung : Bool) :
    TouchMove .scrolling flung [.scroll p d .cancelled] .idle flung
  | tap (p : Point F) (count : ℕ) (flung : Bool) : TouchMove .pending flung [.tap p count] .idle flung
  | cancelPending (flung : Bool) : TouchMove .pending flung [] .idle flung
  | offerLongPress (p q : Point F) (flung : Bool) :
    TouchMove .pending flung [.longPress .started p q] .pending flung
  | offerTouchDrag (p q : Point F) (flung : Bool) :
    TouchMove .pending flung [.touchDrag .started p q] .pending flung
  | claimLongPress (flung : Bool) : TouchMove .pending flung [] .longPressing flung
  | claimTouchDrag (flung : Bool) : TouchMove .pending flung [] .touchDragging flung
  | moveLongPress (p q : Point F) (flung : Bool) :
    TouchMove .longPressing flung [.longPress .moved p q] .longPressing flung
  | moveTouchDrag (p q : Point F) (flung : Bool) :
    TouchMove .touchDragging flung [.touchDrag .moved p q] .touchDragging flung
  | closeLongPress (phase : TouchPhase) (h : phase = .ended ∨ phase = .cancelled) (p q : Point F)
      (flung : Bool) :
    TouchMove .longPressing flung [.longPress phase p q] .idle flung
  | closeTouchDrag (phase : TouchPhase) (h : phase = .ended ∨ phase = .cancelled) (p q : Point F)
      (flung : Bool) :
    TouchMove .touchDragging flung [.touchDrag phase p q] .idle flung
  | tick (k : TouchKind) (p d : Point F) : TouchMove k true [.scroll p d .moved] k true
  | lastTick (k : TouchKind) (p d : Point F) : TouchMove k true [.scroll p d .ended] k false
  | stopFling (k : TouchKind) (h : k ≠ .idle) (p d : Point F) :
    TouchMove k true [.scroll p d .ended] k false

end

namespace TouchGestureRecognizer

variable {F : Type} [TouchFloat F]

variable (r : TouchGestureRecognizer F) (event : TouchEvent F) (now : ℕ)

lemma touchStarted_move :
    TouchMove r.state.kind r.momentum.isSome (r.touchStarted event now).2
      (r.touchStarted event now).1.state.kind (r.touchStarted event now).1.momentum.isSome := by
  cases hm : r.momentum with
  | none =>
    cases hs : r.state <;> simp only [touchStarted, catchFling, hm, hs]
    · exact .accept
    all_goals exact .none _ _
  | some m =>
    cases hs : r.state <;> simp only [touchStarted, catchFling, hm, hs]
    · exact .catchFling _ _ _ _
    all_goals exact .stopFling _ (by simp [TouchGestureState.kind]) _ _

lemma touchMoved_move :
    TouchMove r.state.kind r.momentum.isSome (r.touchMoved event now).2
      (r.touchMoved event now).1.kind r.momentum.isSome := by
  cases hs : r.state with
  | idle =>
    rw [touchMoved, hs]
    exact .none _ _
  | pending touch deadline lp td =>
    rw [touchMoved, hs]
    dsimp only
    split_ifs
    · exact .startPan _ _ _
    · exact .none _ _
    · exact .none _ _
  | caught touch =>
    rw [touchMoved, hs]
    dsimp only
    split_ifs
    · exact .none _ _
    · exact .movePan _ _ _
    · exact .none _ _
  | panning touch axis =>
    rw [touchMoved, hs]
    dsimp only
    split_ifs
    · exact .movePan _ _ _
    · exact .none _ _
  | longPressing touch =>
    rw [touchMoved, hs]
    dsimp only
    split_ifs
    · exact .moveLongPress _ _ _
    · exact .none _ _
  | touchDragging touch =>
    rw [touchMoved, hs]
    dsimp only
    split_ifs
    · exact .moveTouchDrag _ _ _
    · exact .none _ _

lemma touchEnded_move :
    TouchMove r.state.kind r.momentum.isSome (r.touchEnded event now).2
      (r.touchEnded event now).1.state.kind (r.touchEnded event now).1.momentum.isSome := by
  rw [touchEnded]
  split
  · exact .none _ _
  all_goals
    rename_i hs
    split
    case isFalse => exact .none _ _
  · rw [hs]
    exact .tap _ _ _
  · rw [hs]
    exact .endPan _ _ _ _
  · rw [hs]
    exact .endPan _ _ _ _
  · rw [hs]
    exact .closeLongPress _ (.inl rfl) _ _ _
  · rw [hs]
    exact .closeTouchDrag _ (.inl rfl) _ _ _

lemma touchCancelled_move :
    TouchMove r.state.kind r.momentum.isSome (r.touchCancelled event).2
      (r.touchCancelled event).1.state.kind (r.touchCancelled event).1.momentum.isSome := by
  rw [touchCancelled]
  split
  · exact .none _ _
  all_goals
    rename_i hs
    split
    case isFalse => exact .none _ _
  · rw [hs]
    exact .cancelPending _
  · rw [hs]
    exact .cancelPan _ _ _
  · rw [hs]
    exact .cancelPan _ _ _
  · rw [hs]
    exact .closeLongPress _ (.inr rfl) _ _ _
  · rw [hs]
    exact .closeTouchDrag _ (.inr rfl) _ _ _

variable (id : ℕ) (claimed : Bool)

omit [TouchFloat F] in
lemma offerLongPress_move :
    TouchMove r.state.kind r.momentum.isSome (r.offerLongPress id).2.toList
      (r.offerLongPress id).1.state.kind (r.offerLongPress id).1.momentum.isSome := by
  rw [offerLongPress]
  split
  · rename_i hs
    split
    · exact .none _ _
    · rw [hs]
      exact .offerLongPress _ _ _
  · exact .none _ _

omit [TouchFloat F] in
lemma offerTouchDrag_move :
    TouchMove r.state.kind r.momentum.isSome (r.offerTouchDrag id).2.toList
      (r.offerTouchDrag id).1.state.kind (r.offerTouchDrag id).1.momentum.isSome := by
  rw [offerTouchDrag]
  split
  · rename_i hs
    split
    · exact .none _ _
    · rw [hs]
      exact .offerTouchDrag _ _ _
  · exact .none _ _

omit [TouchFloat F] in
lemma resolveLongPress_move : TouchMove (F := F) r.state.kind r.momentum.isSome []
      (r.resolveLongPress claimed).state.kind (r.resolveLongPress claimed).momentum.isSome := by
  rw [resolveLongPress]
  split
  · split
    · rename_i hs
      rw [hs]
      exact .claimLongPress _
    · exact .none _ _
  · exact .none _ _

omit [TouchFloat F] in
lemma resolveTouchDrag_move : TouchMove (F := F) r.state.kind r.momentum.isSome []
      (r.resolveTouchDrag claimed).state.kind (r.resolveTouchDrag claimed).momentum.isSome := by
  rw [resolveTouchDrag]
  split
  · split
    · rename_i hs
      rw [hs]
      exact .claimTouchDrag _
    · exact .none _ _
  · exact .none _ _

lemma tickMomentumAt_move :
    TouchMove r.state.kind r.momentum.isSome (r.tickMomentumAt now).2.toList
      (r.tickMomentumAt now).1.state.kind (r.tickMomentumAt now).1.momentum.isSome := by
  rw [tickMomentumAt]
  split
  · exact .none _ _
  · rename_i hm
    dsimp only
    split
    · rw [hm]
      exact .lastTick _ _ _
    · rw [hm]
      exact .tick _ _ _

lemma step_move (op : TouchOp F) :
    TouchMove r.state.kind r.momentum.isSome (r.step op).2 (r.step op).1.state.kind
      (r.step op).1.momentum.isSome := by
  cases op with
  | event event now =>
    rw [step, handleEventAt]
    cases event.phase with
    | started => exact r.touchStarted_move event now
    | moved => exact r.touchMoved_move event now
    | ended => exact r.touchEnded_move event now
    | cancelled => exact r.touchCancelled_move event
  | offerLongPress id => exact r.offerLongPress_move id
  | resolveLongPress claimed => exact r.resolveLongPress_move claimed
  | offerTouchDrag id => exact r.offerTouchDrag_move id
  | resolveTouchDrag claimed => exact r.resolveTouchDrag_move claimed
  | tickMomentum now => exact r.tickMomentumAt_move now

end TouchGestureRecognizer

/-- The touch a state is about. -/
def TouchGestureState.touchId {F : Type} : TouchGestureState F → Option ℕ
  | .idle => none
  | .pending touch _ _ _ | .panning touch _ | .caught touch | .longPressing touch
  | .touchDragging touch => some touch.id

lemma TouchGestureState.touchId_eq_none {F : Type} (state : TouchGestureState F) :
    state.touchId = none ↔ state.kind = .idle := by
  cases state <;> simp [touchId, kind]

namespace TouchGestureRecognizer

variable {F : Type} [TouchFloat F] (r : TouchGestureRecognizer F) (event : TouchEvent F) (now : ℕ)

lemma touchMoved_touchId : (r.touchMoved event now).1.touchId = r.state.touchId := by
  rw [touchMoved]
  split
  · next hs => rw [hs]
  all_goals
    next hs =>
    simp only [hs, movePan, startPan]
    split_ifs <;> rfl

lemma touchEnded_touchId : (r.touchEnded event now).1.state.touchId =
    if r.state.touchId = some event.id then none else r.state.touchId := by
  rw [touchEnded]
  split
  all_goals
    next hs =>
    simp only [hs, TouchGestureState.touchId, Option.some.injEq]
    split_ifs <;> simp_all

lemma touchCancelled_touchId : (r.touchCancelled event).1.state.touchId =
    if r.state.touchId = some event.id then none else r.state.touchId := by
  rw [touchCancelled]
  split
  all_goals
    next hs =>
    simp only [hs, TouchGestureState.touchId, Option.some.injEq]
    split_ifs <;> simp_all

/-- The recognizer is about the touch that the operations have it watch. -/
lemma step_touchId (op : TouchOp F) : (r.step op).1.state.touchId = op.watches r.state.touchId := by
  cases op with
  | event event now =>
    rw [step, handleEventAt, TouchOp.watches]
    cases event.phase with
    | started =>
      cases hs : r.state with
      | idle =>
        simp only [touchStarted, hs]
        split <;> rfl
      | _ =>
        simp only [touchStarted, hs]
        rfl
    | moved => exact r.touchMoved_touchId event now
    | ended => exact r.touchEnded_touchId event now
    | cancelled => exact r.touchCancelled_touchId event
  | offerLongPress id =>
    rw [step, offerLongPress]
    split
    · next hs =>
      rw [hs]
      split <;> simp only [TouchGestureState.touchId, TouchOp.watches, hs]
    · rfl
  | resolveLongPress claimed =>
    rw [step, resolveLongPress]
    split
    · split
      · next hs =>
        rw [hs]
        rfl
      · rfl
    · rfl
  | offerTouchDrag id =>
    rw [step, offerTouchDrag]
    split
    · next hs =>
      rw [hs]
      split <;> simp only [TouchGestureState.touchId, TouchOp.watches, hs]
    · rfl
  | resolveTouchDrag claimed =>
    rw [step, resolveTouchDrag]
    split
    · split
      · next hs =>
        rw [hs]
        rfl
      · rfl
    · rfl
  | tickMomentum now =>
    rw [step, tickMomentumAt]
    split
    · rfl
    · dsimp only
      split <;> rfl

end TouchGestureRecognizer

namespace TouchKind

def stream : TouchKind → Bool → ScrollStream
  | scrolling, _ => .gesture
  | idle, true => .momentum
  | _, _ => .quiet

def outcome : TouchKind → TouchOutcome
  | scrolling => { scrolls := 1 }
  | longPressing => { longPresses := 1 }
  | touchDragging => { touchDrags := 1 }
  | _ => {}

end TouchKind

/-- The scroll events lead to where the recognizer stands, a fling is in progress only while no touch
is recognized, and the touches before are done. -/
structure Orderly (k : TouchKind) (flung : Bool) (o : TouchObserver) : Prop where
  scrolls : o.scrolls.foldlM ScrollStream.next .quiet = some (k.stream flung)
  momentum : flung = true → k = .idle
  touches : ∃ done, o.touches = (if k = .idle then done else k.outcome :: done) ∧
    ∀ t ∈ done, t.ended = true ∧ t.Single

section

variable {F : Type} {k k' : TouchKind} {flung flung' : Bool} {o : TouchObserver}
  {recognized : List (RecognizedTouchGesture F)}

lemma Orderly.init : Orderly .idle false {} :=
  ⟨rfl, by simp, [], rfl, by simp⟩

lemma foldlM_scrolls (h : o.scrolls.foldlM ScrollStream.next .quiet = some (k.stream flung))
    {phases : List (TouchPhase × Bool)} {stream : ScrollStream}
    (hphases : phases.foldlM ScrollStream.next (k.stream flung) = some stream) :
    (o.scrolls ++ phases).foldlM ScrollStream.next .quiet = some stream := by
  rw [foldlM_append, h]
  exact hphases

variable {op : TouchOp F}

lemma Orderly.during (h : Orderly k flung o) (hbefore : o.watched ≠ none)
    (hafter : op.watches o.watched ≠ none) (hk : k ≠ .idle) (hk' : k' ≠ .idle)
    (hstream : ((scrollPhases recognized).map (fun phase => (phase, flung'))).foldlM
      ScrollStream.next (k.stream flung) = some (k'.stream flung')) (hflung : flung' = false)
    (houtcome : (recognized.foldl TouchOutcome.note k.outcome).claim k k' = k'.outcome) :
    Orderly k' flung' (o.observe op k k' flung' recognized) := by
  obtain ⟨done, hdone, hall⟩ := h.touches
  refine ⟨foldlM_scrolls h.scrolls hstream, by simp [hflung], done, ?_, hall⟩
  rw [if_neg hk] at hdone
  simp only [TouchObserver.observe, hbefore, hafter, false_and, and_false, if_false, if_neg hk',
    hdone, modifyHead_cons, houtcome]

lemma Orderly.closed (h : Orderly k flung o) (hbefore : o.watched ≠ none)
    (hafter : op.watches o.watched = none) (hk : k ≠ .idle)
    (hstream : ((scrollPhases recognized).map (fun phase => (phase, flung'))).foldlM
      ScrollStream.next (k.stream flung) = some (TouchKind.idle.stream flung'))
    (houtcome : ({ (recognized.foldl TouchOutcome.note k.outcome).claim k .idle with
      ended := true } : TouchOutcome).Single) :
    Orderly .idle flung' (o.observe op k .idle flung' recognized) := by
  obtain ⟨done, hdone, hall⟩ := h.touches
  refine ⟨foldlM_scrolls h.scrolls hstream, fun _ => rfl,
    { (recognized.foldl TouchOutcome.note k.outcome).claim k .idle with ended := true } :: done,
    ?_, ?_⟩
  · rw [if_neg hk] at hdone
    rw [TouchObserver.observe, if_neg (fun hnone => hbefore hnone.1), if_pos rfl, hdone,
      modifyHead_cons, if_pos ⟨hbefore, hafter⟩]
  · intro t ht
    rcases mem_cons.mp ht with rfl | ht
    · exact ⟨rfl, houtcome⟩
    · exact hall t ht

lemma Orderly.between (h : Orderly .idle flung o) (hbefore : o.watched = none)
    (hafter : op.watches o.watched = none)
    (hstream : ((scrollPhases recognized).map (fun phase => (phase, flung'))).foldlM
      ScrollStream.next (TouchKind.idle.stream flung) = some (TouchKind.idle.stream flung'))
    (hnote : ∀ t : TouchOutcome, t.ended = true → t.Single →
      recognized.foldl TouchOutcome.note t = t) :
    Orderly .idle flung' (o.observe op .idle .idle flung' recognized) := by
  obtain ⟨done, hdone, hall⟩ := h.touches
  refine ⟨foldlM_scrolls h.scrolls hstream, fun _ => rfl, done, ?_, hall⟩
  rw [if_pos rfl] at hdone
  rw [TouchObserver.observe, if_neg (fun hsome => hsome.2 hafter), if_pos rfl, hdone]
  cases done with
  | nil => rfl
  | cons t done =>
    obtain ⟨hended, hsingle⟩ := hall t mem_cons_self
    rw [modifyHead_cons, hnote t hended hsingle, if_neg (fun hsome => hsome.1 hbefore)]
    rfl

lemma Orderly.taken (h : Orderly .idle flung o) (hbefore : o.watched = none)
    (hafter : op.watches o.watched ≠ none) (hk' : k' ≠ .idle)
    (hstream : ((scrollPhases recognized).map (fun phase => (phase, false))).foldlM
      ScrollStream.next (TouchKind.idle.stream flung) = some (k'.stream false))
    (houtcome : (recognized.foldl TouchOutcome.note {}).claim .idle k' = k'.outcome) :
    Orderly k' false (o.observe op .idle k' false recognized) := by
  obtain ⟨done, hdone, hall⟩ := h.touches
  refine ⟨foldlM_scrolls h.scrolls hstream, by simp, done, ?_, hall⟩
  rw [if_pos rfl] at hdone
  rw [TouchObserver.observe, if_pos ⟨hbefore, hafter⟩, if_neg hk', hdone, modifyHead_cons, houtcome,
    if_neg (fun hsome => hsome.1 hbefore)]

lemma Orderly.move (h : Orderly k flung o) (hmove : TouchMove k flung recognized k' flung')
    (hbefore : o.watched = none ↔ k = .idle) (hafter : op.watches o.watched = none ↔ k' = .idle) :
    Orderly k' flung' (o.observe op k k' flung' recognized) := by
  have hfalse : k ≠ .idle → flung = false := by
    intro hk
    cases flung with
    | true => exact absurd (h.momentum rfl) hk
    | false => rfl
  cases hmove with
  | none k flung =>
    by_cases hk : k = .idle
    · subst hk
      exact h.between (hbefore.mpr rfl) (hafter.mpr rfl) rfl (fun _ _ _ => rfl)
    · exact h.during (mt hbefore.mp hk) (mt hafter.mp hk) hk hk rfl (hfalse hk)
        (by cases k <;> rfl)
  | accept => exact h.taken (hbefore.mpr rfl) (mt hafter.mp (by simp)) (by simp) rfl rfl
  | catchFling p q d e => exact h.taken (hbefore.mpr rfl) (mt hafter.mp (by simp)) (by simp) rfl rfl
  | startPan p d flung | movePan p d flung | offerLongPress p q flung | offerTouchDrag p q flung
  | moveLongPress p q flung | moveTouchDrag p q flung | claimLongPress flung
  | claimTouchDrag flung =>
    obtain rfl := hfalse (by simp)
    exact h.during (mt hbefore.mp (by simp)) (mt hafter.mp (by simp)) (by simp) (by simp) rfl rfl rfl
  | endPan p d flung flung' =>
    obtain rfl := hfalse (by simp)
    exact h.closed (mt hbefore.mp (by simp)) (hafter.mpr rfl) (by simp) (by cases flung' <;> rfl)
      ⟨Nat.le_refl 1, rfl, rfl, rfl⟩
  | cancelPan p d flung | tap p count flung =>
    obtain rfl := hfalse (by simp)
    exact h.closed (mt hbefore.mp (by simp)) (hafter.mpr rfl) (by simp) rfl
      ⟨Nat.le_refl 1, rfl, rfl, rfl⟩
  | cancelPending flung =>
    obtain rfl := hfalse (by simp)
    exact h.closed (mt hbefore.mp (by simp)) (hafter.mpr rfl) (by simp) rfl
      ⟨Nat.zero_le 1, rfl, rfl, rfl⟩
  | closeLongPress phase hphase p q flung | closeTouchDrag phase hphase p q flung =>
    obtain rfl := hfalse (by simp)
    rcases hphase with rfl | rfl
    all_goals
      exact h.closed (mt hbefore.mp (by simp)) (hafter.mpr rfl) (by simp) rfl
        ⟨Nat.le_refl 1, rfl, rfl, rfl⟩
  | tick k p d =>
    obtain rfl := h.momentum rfl
    exact h.between (hbefore.mpr rfl) (hafter.mpr rfl) rfl (fun _ _ _ => rfl)
  | lastTick k p d =>
    obtain rfl := h.momentum rfl
    refine h.between (hbefore.mpr rfl) (hafter.mpr rfl) rfl (fun t hended hsingle => if_neg ?_)
    -- the touch that flung has closed its gesture
    rw [hsingle.scrollsClosed, hended, if_pos rfl]
    exact Nat.lt_irrefl _
  | stopFling k hk p d => exact absurd (h.momentum rfl) hk

end

namespace TouchGestureRecognizer

variable {F : Type} [TouchFloat F]

lemma orderly_run (ops : List (TouchOp F)) :
    ∀ {r : TouchGestureRecognizer F} {o : TouchObserver}, o.watched = r.state.touchId →
      Orderly r.state.kind r.momentum.isSome o →
      Orderly (r.run o ops).1.state.kind (r.run o ops).1.momentum.isSome (r.run o ops).2 := by
  induction ops with
  | nil => exact fun _ h => h
  | cons op ops ih =>
    intro r o hwatched h
    have hnext : op.watches o.watched = (r.step op).1.state.touchId := by
      rw [hwatched, r.step_touchId op]
    refine ih hnext (h.move (r.step_move op) ?_ ?_)
    · rw [hwatched, TouchGestureState.touchId_eq_none]
    · rw [hnext, TouchGestureState.touchId_eq_none]
      rfl

lemma outcome_single (k : TouchKind) : k.outcome.Single := by
  cases k <;> exact ⟨by decide, rfl, rfl, rfl⟩

end TouchGestureRecognizer

end GpuiFast
