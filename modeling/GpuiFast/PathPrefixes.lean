import GpuiFast.PathStyle

/-! What of a path its prefix depends on: a path that begins with the text of a prefix and a separator
has that prefix, but for a verbatim share that is empty. -/

namespace GpuiFast

open List PathPrefix

open PathBytes

namespace WindowsPrefix

variable {path pattern : PathBytes} {i : ℕ} {path' : PathBytes} {n : ℕ} {l rest : PathBytes}
  {s : UInt8} {p : PathPrefix} {tail : PathBytes}

lemma startsWithAt_iff (h : i + pattern.length ≤ 8) :
    startsWithAt path i pattern = true ↔
      ((path.drop i).take pattern.length).map (fun b => if b = slash then backslash else b) =
        pattern := by
  have heq : ((getPrefix path).drop i).take pattern.length =
      ((path.drop i).take pattern.length).map (fun b => if b = slash then backslash else b) := by
    rw [getPrefix, ← map_drop, ← map_take, drop_take, take_take,
      Nat.min_eq_left (by omega)]
  rw [startsWithAt, isPrefixOf_iff_prefix, prefix_iff_eq_take, heq, eq_comm]

lemma startsWithAt_congr (htake : path.take n = path'.take n) (hn : i + pattern.length ≤ n)
    (h : i + pattern.length ≤ 8) : startsWithAt path i pattern = startsWithAt path' i pattern := by
  have hdrop : ∀ l : PathBytes,
      (l.drop i).take pattern.length = ((l.take n).drop i).take pattern.length := by
    intro l
    rw [drop_take, take_take, Nat.min_eq_left (by omega)]
  rw [Bool.eq_iff_iff, startsWithAt_iff h, startsWithAt_iff h, hdrop path, hdrop path', htake]

lemma startsWithAt_length (h : i + pattern.length ≤ 8) (hs : startsWithAt path i pattern = true)
    (hp : pattern ≠ []) : i + pattern.length ≤ path.length := by
  have hlen := congrArg List.length ((startsWithAt_iff h).mp hs)
  rw [length_map, length_take, length_drop] at hlen
  have hpos := length_pos_iff.mpr hp
  omega

lemma contains_take_congr (htake : path.take n = path'.take n) (hn : 4 ≤ n) :
    (path.take 4).contains slash = (path'.take 4).contains slash := by
  have h4 : ∀ l : PathBytes, l.take 4 = (l.take n).take 4 := by
    intro l
    rw [take_take, Nat.min_eq_left hn]
  rw [h4 path, h4 path', htake]

lemma takeWhile_append_cons {p : UInt8 → Bool} (hl : ∀ b ∈ l, p b = true) (hs : p s = false) :
    (l ++ s :: rest).takeWhile p = l := by
  rw [takeWhile_append_of_pos hl, takeWhile_cons_of_neg (by simp [hs]), append_nil]

lemma dropWhile_append_cons {p : UInt8 → Bool} (hl : ∀ b ∈ l, p b = true) (hs : p s = false) :
    (l ++ s :: rest).dropWhile p = s :: rest := by
  rw [dropWhile_append_of_pos hl, dropWhile_cons_of_neg (by simp [hs])]

def separator (verbatim : Bool) : UInt8 → Bool := if verbatim then isVerbatimSep else isSepByte

lemma parseNextComponent_eq (path : PathBytes) (v : Bool) :
    parseNextComponent path v =
      (path.takeWhile (fun b => !separator v b),
        (path.dropWhile (fun b => !separator v b)).drop 1) := rfl

lemma next_cases (path : PathBytes) (v : Bool) :
    (path = (parseNextComponent path v).1 ∧ (parseNextComponent path v).2 = []) ∨
      ∃ s, separator v s = true ∧
        path = (parseNextComponent path v).1 ++ s :: (parseNextComponent path v).2 := by
  rw [parseNextComponent_eq]
  have happ := takeWhile_append_dropWhile (p := fun b => !separator v b) (l := path)
  cases hd : path.dropWhile (fun b => !separator v b) with
  | nil =>
    left
    rw [hd, append_nil] at happ
    exact ⟨happ.symm, rfl⟩
  | cons s rest =>
    right
    have hne : path.dropWhile (fun b => !separator v b) ≠ [] := by simp [hd]
    have hhead := head_dropWhile_not (fun b => !separator v b) hne
    simp only [hd, head_cons, Bool.not_eq_false'] at hhead
    rw [hd] at happ
    exact ⟨s, hhead, happ.symm⟩

lemma next_no_sep (path : PathBytes) (v : Bool) :
    ∀ b ∈ (parseNextComponent path v).1, (!separator v b) = true := by
  intro b hb
  exact mem_takeWhile_imp (p := fun b => !separator v b) hb

lemma next_append {v : Bool} (hl : ∀ b ∈ l, (!separator v b) = true) (hs : separator v s = true) :
    parseNextComponent (l ++ s :: rest) v = (l, rest) := by
  rw [parseNextComponent_eq, takeWhile_append_cons hl (by simp [hs]),
    dropWhile_append_cons hl (by simp [hs])]
  rfl

lemma separator_backslash (v : Bool) : separator v backslash = true := by
  cases v <;> rfl

lemma share_cases (path : PathBytes) (v : Bool)
    (hshare : (parseNextComponent (parseNextComponent path v).2 v).1 ≠ []) :
    ∃ s, separator v s = true ∧
      path.take (shareLen (parseNextComponent path v).1
          (parseNextComponent (parseNextComponent path v).2 v).1) =
        (parseNextComponent path v).1 ++ s ::
          (parseNextComponent (parseNextComponent path v).2 v).1 ∧
      shareLen (parseNextComponent path v).1
        (parseNextComponent (parseNextComponent path v).2 v).1 ≤ path.length := by
  set server := (parseNextComponent path v).1 with hserver
  set rest := (parseNextComponent path v).2 with hrest
  set share := (parseNextComponent rest v).1 with hshare'
  have hpos := length_pos_iff.mpr hshare
  have hlen : shareLen server share = (server ++ [(0 : UInt8)]).length + share.length := by
    simp only [shareLen, if_pos hpos, length_append, length_singleton]
    omega
  rcases next_cases path v with ⟨-, hnil⟩ | ⟨s, hs, happ⟩
  · rw [← hrest] at hnil
    rw [hshare', hnil] at hshare
    exact absurd rfl hshare
  · rw [← hserver, ← hrest] at happ
    refine ⟨s, hs, ?_⟩
    have hsub : ∃ t, rest = share ++ t := by
      rcases next_cases rest v with ⟨h, -⟩ | ⟨s', -, h⟩
      · exact ⟨[], by rw [append_nil]; exact h⟩
      · exact ⟨_, h⟩
    obtain ⟨t, ht⟩ := hsub
    have hpath : path = (server ++ s :: share) ++ t := by
      rw [happ, ht]
      simp
    have hlen' : shareLen server share = (server ++ s :: share).length := by
      rw [hlen]
      simp
      omega
    rw [hlen', hpath]
    exact ⟨take_left' rfl, by simp⟩

variable {server : PathBytes} {d : UInt8} {name : PathBytes}

lemma parse_share {share : PathBytes} (rest : PathBytes) {s' : UInt8} {v : Bool}
    (hserver : ∀ b ∈ server, (!separator v b) = true) (hs : separator v s = true)
    (hshare : ∀ b ∈ share, (!separator v b) = true) (hs' : separator v s' = true) :
    parseNextComponent (server ++ s :: (share ++ s' :: rest)) v = (server, share ++ s' :: rest) ∧
      parseNextComponent (share ++ s' :: rest) v = (share, rest) :=
  ⟨next_append hserver hs, next_append hshare hs'⟩

def startsVerbatim (path : PathBytes) : Bool :=
  startsWithAt path 2 [question, backslash] && !(path.take 4).contains slash

def nextAt (path : PathBytes) (i : ℕ) (v : Bool) : PathBytes × PathBytes :=
  parseNextComponent (path.drop i) v

lemma parsePrefix_cases (h : parsePrefix path = some p) :
    (startsWithAt path 0 [backslash, backslash] = false ∧ ∃ d, parseDrive path = some d ∧
        p = .disk d) ∨
      startsWithAt path 0 [backslash, backslash] = true ∧
        ((startsVerbatim path = true ∧
            ((startsWithAt path 4 uncBytes = true ∧ p = .verbatimUnc (nextAt path 8 true).1
                (parseNextComponent (nextAt path 8 true).2 true).1) ∨
              startsWithAt path 4 uncBytes = false ∧
                ((∃ d, parseDriveExact (path.drop 4) = some d ∧ p = .verbatimDisk d) ∨
                  parseDriveExact (path.drop 4) = none ∧ p = .verbatim (nextAt path 4 true).1))) ∨
          startsVerbatim path = false ∧
            ((startsWithAt path 2 [dot, backslash] = true ∧ p = .deviceNs (nextAt path 4 false).1) ∨
              startsWithAt path 2 [dot, backslash] = false ∧ (nextAt path 2 false).1 ≠ [] ∧
                (parseNextComponent (nextAt path 2 false).2 false).1 ≠ [] ∧
                p = .unc (nextAt path 2 false).1
                  (parseNextComponent (nextAt path 2 false).2 false).1)) := by
  rw [parsePrefix] at h
  cases h₁ : startsWithAt path 0 [backslash, backslash] with
  | false =>
    rw [h₁, if_neg (by simp), Option.map_eq_some_iff] at h
    obtain ⟨d, hd, rfl⟩ := h
    exact .inl ⟨rfl, d, hd, rfl⟩
  | true =>
    refine .inr ⟨rfl, ?_⟩
    rw [h₁, if_pos rfl] at h
    change (if startsVerbatim path = true then _ else _) = _ at h
    cases h₂ : startsVerbatim path with
    | true =>
      refine .inl ⟨rfl, ?_⟩
      rw [h₂, if_pos rfl] at h
      cases h₃ : startsWithAt path 4 uncBytes with
      | true =>
        rw [h₃, if_pos rfl] at h
        exact .inl ⟨rfl, (Option.some.inj h).symm⟩
      | false =>
        refine .inr ⟨rfl, ?_⟩
        rw [h₃, if_neg (by simp)] at h
        cases hd : parseDriveExact (path.drop 4) with
        | some d =>
          rw [hd] at h
          exact .inl ⟨d, rfl, (Option.some.inj h).symm⟩
        | none =>
          rw [hd] at h
          exact .inr ⟨rfl, (Option.some.inj h).symm⟩
    | false =>
      refine .inr ⟨rfl, ?_⟩
      rw [h₂, if_neg (by simp)] at h
      cases h₄ : startsWithAt path 2 [dot, backslash] with
      | true =>
        rw [h₄, if_pos rfl] at h
        exact .inl ⟨rfl, (Option.some.inj h).symm⟩
      | false =>
        refine .inr ⟨rfl, ?_⟩
        rw [h₄, if_neg (by simp)] at h
        change (if (!(nextAt path 2 false).1.isEmpty &&
          !(parseNextComponent (nextAt path 2 false).2 false).1.isEmpty) = true then _ else _) = _
          at h
        split at h
        · rename_i hne
          simp only [Bool.and_eq_true, Bool.not_eq_true', isEmpty_eq_false_iff] at hne
          exact ⟨hne.1, hne.2, (Option.some.inj h).symm⟩
        · exact absurd h (by simp)

lemma startsVerbatim_congr (htake : path.take n = path'.take n) (hn : 4 ≤ n) :
    startsVerbatim path = startsVerbatim path' := by
  rw [startsVerbatim, startsVerbatim, contains_take_congr htake hn,
    startsWithAt_congr htake (by simpa using hn) (by simp)]

lemma take_append_take {m : ℕ} (hm : m ≤ path.length) (hn : n ≤ m) :
    path.take n = (path.take m ++ rest).take n := by
  rw [take_append_of_le_length (by rw [length_take]; omega), take_take,
    Nat.min_eq_left hn]

lemma take_next {v : Bool} (hi : i ≤ path.length) :
    i + (nextAt path i v).1.length ≤ path.length ∧
      path.take (i + (nextAt path i v).1.length) = path.take i ++ (nextAt path i v).1 := by
  have hsub : ∃ t, path.drop i = (nextAt path i v).1 ++ t := by
    rcases next_cases (path.drop i) v with ⟨h, -⟩ | ⟨s, -, h⟩
    · exact ⟨[], by rw [append_nil]; exact h⟩
    · exact ⟨_, h⟩
  obtain ⟨t, ht⟩ := hsub
  have hlen := congrArg List.length ht
  rw [length_drop, length_append] at hlen
  refine ⟨by omega, ?_⟩
  rw [take_add, ht, take_left' rfl]

lemma drop_take_append (hi : i ≤ path.length) : (path.take i ++ tail).drop i = tail :=
  drop_left' (by rw [length_take]; omega)

lemma parseDrive_length (h : parseDrive path = some d) :
    ∃ x y t, path = x :: y :: t ∧ y = colon ∧ isAsciiAlphabetic x = true ∧
      d = toAsciiUppercase x := by
  match path, h with
  | x :: y :: t, h =>
    rw [parseDrive] at h
    split at h
    · rename_i hxy
      exact ⟨x, y, t, rfl, hxy.1, hxy.2, (Option.some.inj h).symm⟩
    · exact absurd h (by simp)
  | [], h => exact absurd h (by simp [parseDrive])
  | [x], h => exact absurd h (by simp [parseDrive])

lemma length_of_startsWith {b c : UInt8} (h : startsWithAt path 2 [b, c] = true) :
    4 ≤ path.length :=
  startsWithAt_length (by simp) h (by simp)

lemma length_of_startsVerbatim (h : startsVerbatim path = true) : 4 ≤ path.length := by
  rw [startsVerbatim, Bool.and_eq_true] at h
  exact length_of_startsWith h.1

/-- The text of a prefix that is not verbatim, in front of any separator. -/
theorem parsePrefix_take (rest : PathBytes) (h : parsePrefix path = some p)
    (hv : p.isVerbatim = false) (hs : isSepByte s = true) :
    p.len ≤ path.length ∧ parsePrefix (path.take p.len ++ s :: rest) = some p := by
  have hsep : separator false s = true := hs
  rcases parsePrefix_cases h with ⟨h₁, d, hd, rfl⟩ | ⟨h₁, ⟨h₂, hp⟩ | ⟨h₂, hp⟩⟩
  · obtain ⟨x, y, t, rfl, -⟩ := parseDrive_length hd
    refine ⟨by simp [PathPrefix.len], ?_⟩
    change parsePrefix (x :: y :: s :: rest) = _
    have h₁' : startsWithAt (x :: y :: s :: rest) 0 [backslash, backslash] = false := by
      rw [← h₁]
      exact startsWithAt_congr (n := 2) rfl (by simp) (by simp)
    rw [parsePrefix, h₁', if_neg (by simp)]
    have hd' : parseDrive (x :: y :: s :: rest) = some d := hd
    rw [hd']
    rfl
  · rcases hp with ⟨-, rfl⟩ | ⟨-, ⟨d, -, rfl⟩ | ⟨-, rfl⟩⟩ <;> exact absurd hv (by simp [isVerbatim])
  · rcases hp with ⟨h₄, rfl⟩ | ⟨h₄, hserver, hshare, rfl⟩
    · have h4 := length_of_startsWith h₄
      obtain ⟨hle, htake⟩ := take_next (v := false) h4
      refine ⟨hle, ?_⟩
      have hsame : ∀ n ≤ 4, path.take n = (path.take (4 + (nextAt path 4 false).1.length) ++
          s :: rest).take n := fun n hn => take_append_take hle (by omega)
      change parsePrefix (path.take (4 + (nextAt path 4 false).1.length) ++ s :: rest) = _
      rw [parsePrefix, ← startsWithAt_congr (hsame 4 (by omega)) (by simp) (by simp), h₁, if_pos rfl]
      change (if startsVerbatim _ = true then _ else _) = _
      rw [← startsVerbatim_congr (hsame 4 (by omega)) (by omega), h₂, if_neg (by simp),
        ← startsWithAt_congr (hsame 4 (by omega)) (by simp) (by simp), h₄, if_pos rfl]
      have hnext : parseNextComponent ((nextAt path 4 false).1 ++ s :: rest) false =
          ((nextAt path 4 false).1, rest) := next_append (next_no_sep (path.drop 4) false) hsep
      rw [htake, append_assoc, drop_take_append h4, hnext]
    · obtain ⟨s₀, hs₀, htake, hle⟩ := share_cases (path.drop 2) false hshare
      have hserver' := length_pos_iff.mpr hserver
      have hshare' := length_pos_iff.mpr hshare
      have hlen : PathPrefix.len (.unc (nextAt path 2 false).1
          (parseNextComponent (nextAt path 2 false).2 false).1) =
          2 + shareLen (parseNextComponent (path.drop 2) false).1
            (parseNextComponent (parseNextComponent (path.drop 2) false).2 false).1 := rfl
      have h5 : 3 ≤ shareLen (parseNextComponent (path.drop 2) false).1
          (parseNextComponent (parseNextComponent (path.drop 2) false).2 false).1 := by
        have h₁' : 0 < (parseNextComponent (path.drop 2) false).1.length := hserver'
        have h₂' : 0 < (parseNextComponent (parseNextComponent (path.drop 2) false).2
          false).1.length := hshare'
        rw [shareLen, if_pos h₂']
        omega
      rw [length_drop] at hle
      rw [hlen]
      refine ⟨by omega, ?_⟩
      set len := shareLen (parseNextComponent (path.drop 2) false).1
        (parseNextComponent (parseNextComponent (path.drop 2) false).2 false).1 with hlen'
      have hsame : ∀ n ≤ 4, path.take n = (path.take (2 + len) ++ s :: rest).take n :=
        fun n hn => take_append_take (by omega) (by omega)
      rw [parsePrefix, ← startsWithAt_congr (hsame 4 (by omega)) (by simp) (by simp), h₁, if_pos rfl]
      change (if startsVerbatim _ = true then _ else _) = _
      rw [← startsVerbatim_congr (hsame 4 (by omega)) (by omega), h₂, if_neg (by simp),
        ← startsWithAt_congr (hsame 4 (by omega)) (by simp) (by simp), h₄, if_neg (by simp),
        take_add, htake, append_assoc, drop_take_append (by omega), append_assoc,
        cons_append]
      obtain ⟨hfirst, hsecond⟩ := parse_share rest (next_no_sep (path.drop 2) false) hs₀
        (next_no_sep (parseNextComponent (path.drop 2) false).2 false) hsep
      simp only [hfirst, hsecond]
      rw [if_pos]
      · rfl
      · simp only [Bool.and_eq_true, Bool.not_eq_true', isEmpty_eq_false_iff]
        exact ⟨hserver, hshare⟩

lemma parsePrefix_verbatim (hn : n ≤ path.length) (h4 : 4 ≤ n)
    (h₁ : startsWithAt path 0 [backslash, backslash] = true) (h₂ : startsVerbatim path = true) :
    parsePrefix (path.take n ++ tail) =
      if startsWithAt (path.take n ++ tail) 4 uncBytes then
        some (.verbatimUnc (nextAt (path.take n ++ tail) 8 true).1
          (parseNextComponent (nextAt (path.take n ++ tail) 8 true).2 true).1)
      else
        match parseDriveExact ((path.take n ++ tail).drop 4) with
        | some drive => some (.verbatimDisk drive)
        | none => some (.verbatim (nextAt (path.take n ++ tail) 4 true).1) := by
  have hsame : path.take 4 = (path.take n ++ tail).take 4 := take_append_take hn h4
  rw [parsePrefix, ← startsWithAt_congr hsame (by simp) (by simp), h₁, if_pos rfl]
  change (if startsVerbatim _ = true then _ else _) = _
  rw [← startsVerbatim_congr hsame (by omega), h₂, if_pos rfl]
  rfl

lemma startsWithAt_unc (hn : n ≤ path.length) (h4 : 4 ≤ n) :
    startsWithAt (path.take n ++ tail) 4 uncBytes = true ↔
      (((path.take n).drop 4 ++ tail).take 4).map (fun b => if b = slash then backslash else b) =
        uncBytes := by
  have hdrop : (path.take n ++ tail).drop 4 = (path.take n).drop 4 ++ tail :=
    drop_append_of_le_length (by rw [length_take]; omega)
  rw [startsWithAt_iff (by simp [uncBytes]), hdrop]
  rfl

lemma short_ne_unc (h : name.length < 3) :
    ((name ++ backslash :: tail).take 4).map (fun b => if b = slash then backslash else b) ≠
      uncBytes := by
  match name, h with
  | [], _ => simp [uncBytes, backslash]
  | [a], _ => simp [uncBytes, backslash]
  | [a, b], _ => simp [uncBytes, backslash]

lemma parseDriveExact_append (name rest rest' : PathBytes) :
    parseDriveExact (name ++ backslash :: rest) = parseDriveExact (name ++ backslash :: rest') := by
  have hnone : isAsciiAlphabetic backslash = false := by decide
  have hcolon : backslash ≠ colon := by decide
  match name with
  | [] => cases rest <;> cases rest' <;> simp [parseDriveExact, parseDrive, hnone]
  | [a] => simp [parseDriveExact, parseDrive, hcolon]
  | [a, b] => simp [parseDriveExact, parseDrive]
  | a :: b :: c :: name => simp [parseDriveExact, parseDrive]

lemma separator_true (h : separator true s = true) : s = backslash := by
  simpa [separator, isVerbatimSep] using h

lemma drop_next (path : PathBytes) (v : Bool) :
    (path.drop (parseNextComponent path v).1.length = [] ∧ (parseNextComponent path v).2 = []) ∨
      ∃ s, separator v s = true ∧
        path.drop (parseNextComponent path v).1.length = s :: (parseNextComponent path v).2 := by
  rcases next_cases path v with ⟨h, hnil⟩ | ⟨s, hs, h⟩
  · left
    refine ⟨?_, hnil⟩
    rw [← h, drop_length]
  · right
    refine ⟨s, hs, ?_⟩
    exact (congrArg (List.drop (parseNextComponent path v).1.length) h).trans
      (drop_left' rfl)

lemma drop_share (path : PathBytes) (v : Bool) :
    path.drop (shareLen (parseNextComponent path v).1
        (parseNextComponent (parseNextComponent path v).2 v).1) = [] ∨
      ∃ s rest, separator v s = true ∧ path.drop (shareLen (parseNextComponent path v).1
        (parseNextComponent (parseNextComponent path v).2 v).1) = s :: rest := by
  set server := (parseNextComponent path v).1 with hserver
  set rest := (parseNextComponent path v).2 with hrest
  set share := (parseNextComponent rest v).1 with hshare
  rw [shareLen]
  split
  · rename_i hpos
    rcases drop_next path v with ⟨-, hnil⟩ | ⟨s, -, hdrop⟩
    · rw [← hrest] at hnil
      rw [hshare, hnil] at hpos
      exact absurd hpos (by simp [parseNextComponent])
    · rw [← drop_drop, hdrop, ← hrest, Nat.add_comm 1, drop_succ_cons]
      rcases drop_next rest v with ⟨h, -⟩ | ⟨s, hs, h⟩
      · exact .inl h
      · exact .inr ⟨s, _, hs, h⟩
  · rw [Nat.add_zero]
    rcases drop_next path v with ⟨h, -⟩ | ⟨s, hs, h⟩
    · exact .inl h
    · exact .inr ⟨s, _, hs, h⟩

lemma length_of_drive (h : parseDriveExact path = some d) :
    ∃ x t, path = x :: colon :: t ∧ t[0]?.all isVerbatimSep = true := by
  rw [parseDriveExact] at h
  split at h
  · rename_i hsep
    obtain ⟨x, y, t, rfl, rfl, -⟩ := parseDrive_length h
    exact ⟨x, t, rfl, by simpa using hsep⟩
  · exact absurd h (by simp)

/-- After a prefix other than a drive, a path ends or has a separator. -/
theorem prefix_drop (h : parsePrefix path = some p) (hdrive : p.isDrive = false) :
    path.drop p.len = [] ∨
      ∃ s rest, separator p.isVerbatim s = true ∧ path.drop p.len = s :: rest := by
  rcases parsePrefix_cases h with ⟨-, d, -, rfl⟩ | ⟨-, ⟨-, hp⟩ | ⟨-, hp⟩⟩
  · exact absurd hdrive (by simp [isDrive])
  · rcases hp with ⟨-, rfl⟩ | ⟨-, ⟨d, hd, rfl⟩ | ⟨-, rfl⟩⟩
    · rw [PathPrefix.len, ← drop_drop]
      exact drop_share (path.drop 8) true
    · obtain ⟨x, t, hdrop, hsep⟩ := length_of_drive hd
      have ht : path.drop 6 = t := by
        rw [show 6 = 4 + 2 from rfl, ← drop_drop, hdrop]
        rfl
      rw [PathPrefix.len, ht]
      cases t with
      | nil => exact .inl rfl
      | cons b t =>
        have hb : isVerbatimSep b = true := by simpa using hsep
        exact .inr ⟨b, t, hb, rfl⟩
    · rw [PathPrefix.len, ← drop_drop]
      rcases drop_next (path.drop 4) true with ⟨h, -⟩ | ⟨s, hs, h⟩
      · exact .inl h
      · exact .inr ⟨s, _, hs, h⟩
  · rcases hp with ⟨-, rfl⟩ | ⟨-, -, -, rfl⟩
    · rw [PathPrefix.len, ← drop_drop]
      rcases drop_next (path.drop 4) false with ⟨h, -⟩ | ⟨s, hs, h⟩
      · exact .inl h
      · exact .inr ⟨s, _, hs, h⟩
    · rw [PathPrefix.len, ← drop_drop]
      exact drop_share (path.drop 2) false

lemma share_len_le (path : PathBytes) (v : Bool) :
    shareLen (parseNextComponent path v).1
      (parseNextComponent (parseNextComponent path v).2 v).1 ≤ path.length := by
  by_cases hshare : (parseNextComponent (parseNextComponent path v).2 v).1 = []
  · rw [hshare, shareLen, if_neg (by simp), Nat.add_zero]
    exact ( takeWhile_prefix _).length_le
  · obtain ⟨s, -, -, hle⟩ := share_cases path v hshare
    exact hle

lemma prefix_len_le (h : parsePrefix path = some p) (hv : p.isVerbatim = true) :
    p.len ≤ path.length := by
  rcases parsePrefix_cases h with ⟨-, d, -, rfl⟩ | ⟨-, ⟨h₂, hp⟩ | ⟨-, hp⟩⟩
  · exact absurd hv (by simp [isVerbatim])
  · rcases hp with ⟨hunc, rfl⟩ | ⟨-, ⟨d, hd, rfl⟩ | ⟨-, rfl⟩⟩
    · have h8 : 8 ≤ path.length := startsWithAt_length (by simp [uncBytes]) hunc (by simp [uncBytes])
      have hle := share_len_le (path.drop 8) true
      rw [length_drop] at hle
      rw [PathPrefix.len, nextAt]
      omega
    · obtain ⟨x, t, hdrop, -⟩ := length_of_drive hd
      have hlen := congrArg List.length hdrop
      rw [length_drop, length_cons, length_cons] at hlen
      rw [PathPrefix.len]
      omega
    · exact (take_next (length_of_startsVerbatim h₂)).1
  · rcases hp with ⟨-, rfl⟩ | ⟨-, -, -, rfl⟩ <;> exact absurd hv (by simp [isVerbatim])

/-- The text of a verbatim prefix, in front of another rest. -/
theorem parsePrefix_take_verbatim {rest' : PathBytes} (h : parsePrefix path = some p)
    (hv : p.isVerbatim = true) (hdrop : path.drop p.len = backslash :: rest)
    (hshare : ∀ server, p ≠ .verbatimUnc server []) :
    parsePrefix (path.take p.len ++ backslash :: rest') = some p := by
  have hlen := prefix_len_le h hv
  rcases parsePrefix_cases h with ⟨-, d, -, rfl⟩ | ⟨h₁, ⟨h₂, hp⟩ | ⟨-, hp⟩⟩
  · exact absurd hv (by simp [isVerbatim])
  · have h4 := length_of_startsVerbatim h₂
    rcases hp with ⟨hunc, rfl⟩ | ⟨hunc, ⟨d, hd, rfl⟩ | ⟨hd, rfl⟩⟩
    · have h8 : 8 ≤ path.length := startsWithAt_length (by simp [uncBytes]) hunc (by simp [uncBytes])
      have hne : (parseNextComponent (nextAt path 8 true).2 true).1 ≠ [] := by
        intro hnil
        rw [hnil] at hshare
        exact hshare _ rfl
      obtain ⟨s, hs, htake, -⟩ := share_cases (path.drop 8) true hne
      set server := (nextAt path 8 true).1 with hserver
      set share := (parseNextComponent (nextAt path 8 true).2 true).1 with hshare'
      have hn : 8 ≤ (verbatimUnc server share).len := by simp [PathPrefix.len]
      rw [parsePrefix_verbatim hlen (by omega) h₁ h₂,
        ← startsWithAt_congr (take_append_take (n := 8) hlen hn) (by simp [uncBytes])
          (by simp [uncBytes]), hunc, if_pos rfl]
      have htext : path.take (verbatimUnc server share).len ++ backslash :: rest' =
          path.take 8 ++ (server ++ s :: (share ++ backslash :: rest')) := by
        rw [PathPrefix.len, take_add, hserver, hshare', nextAt, htake]
        simp
      obtain ⟨hfirst, hsecond⟩ := parse_share rest' (next_no_sep (path.drop 8) true) hs
        (next_no_sep (nextAt path 8 true).2 true) (separator_backslash true)
      rw [htext, nextAt, drop_take_append h8]
      change parseNextComponent (server ++ s :: (share ++ backslash :: rest')) true = _ at hfirst
      change parseNextComponent (share ++ backslash :: rest') true = _ at hsecond
      rw [hfirst, hsecond]
      rfl
    · obtain ⟨x, t, hx, -⟩ := length_of_drive hd
      have htake : path.take 6 = path.take 4 ++ [x, colon] := by
        rw [show 6 = 4 + 2 from rfl, take_add, hx]
        rfl
      have hd' : parseDriveExact (x :: colon :: backslash :: rest') = some d := by
        rw [hx] at hd
        rw [parseDriveExact] at hd ⊢
        split at hd
        · rw [if_pos (by rfl)]
          exact hd
        · exact absurd hd (by simp)
      have hlen : 6 ≤ path.length := hlen
      change parsePrefix (path.take 6 ++ backslash :: rest') = _
      have hunc' : startsWithAt (path.take 6 ++ backslash :: rest') 4 uncBytes = false := by
        rw [Bool.eq_false_iff, Ne, startsWithAt_unc hlen (by omega), htake,
          drop_take_append h4]
        simp [uncBytes, colon, slash, backslash]
      rw [parsePrefix_verbatim hlen (by omega) h₁ h₂, hunc', if_neg (by simp),
        htake, append_assoc, drop_take_append h4]
      change (match parseDriveExact (x :: colon :: backslash :: rest') with
        | some drive => _
        | none => _) = _
      rw [hd']
    · obtain ⟨hle, htake⟩ := take_next (v := true) h4
      set name := (nextAt path 4 true).1 with hname
      have hpath : path.drop 4 = name ++ backslash :: rest := by
        have := take_append_drop name.length (path.drop 4)
        rw [drop_drop] at this
        rw [← this]
        change _ ++ path.drop (PathPrefix.verbatim name).len = _
        rw [hdrop]
        congr 1
        have := take_add (l := path) (i := 4) (j := name.length)
        rw [htake] at this
        exact (append_cancel_left this).symm
      have htext : path.take (PathPrefix.verbatim name).len ++ backslash :: rest' =
          path.take 4 ++ (name ++ backslash :: rest') := by
        rw [PathPrefix.len, htake, append_assoc]
      have hunc' : startsWithAt (path.take (PathPrefix.verbatim name).len ++ backslash :: rest') 4
          uncBytes = false := by
        rw [Bool.eq_false_iff, Ne, startsWithAt_iff (by simp [uncBytes]), htext,
          drop_take_append h4]
        rw [Bool.eq_false_iff, Ne, startsWithAt_iff (by simp [uncBytes]), hpath] at hunc
        by_cases h3 : name.length < 3
        · exact short_ne_unc h3
        · have hfour : ∀ t, (name ++ backslash :: t).take uncBytes.length =
              (name ++ [backslash]).take 4 := by
            intro t
            change _ = (name ++ [backslash]).take uncBytes.length
            rw [append_cons, take_append_of_le_length]
            simp [uncBytes]
            omega
          rw [hfour] at hunc ⊢
          exact hunc
      have hnext : parseNextComponent (name ++ backslash :: rest') true = (name, rest') :=
        next_append (next_no_sep (path.drop 4) true) (separator_backslash true)
      rw [parsePrefix_verbatim hlen (by simp [PathPrefix.len]) h₁ h₂, hunc', if_neg (by simp),
        htext, nextAt, drop_take_append h4, parseDriveExact_append name rest' rest, ← hpath, hd,
        hnext]
  · rcases hp with ⟨-, rfl⟩ | ⟨-, -, -, rfl⟩ <;> exact absurd hv (by simp [isVerbatim])

/-- An empty share after a server takes the name that comes after it. -/
theorem parsePrefix_take_share (rest : PathBytes)
    (h : parsePrefix path = some (.verbatimUnc server [])) :
    parsePrefix (path.take (8 + server.length) ++ backslash :: rest) =
      some (.verbatimUnc server (parseNextComponent rest true).1) := by
  rcases parsePrefix_cases h with ⟨-, d, -, hp⟩ | ⟨h₁, ⟨h₂, hp⟩ | ⟨-, hp⟩⟩
  · exact absurd hp (by simp)
  · rcases hp with ⟨hunc, hp⟩ | ⟨-, ⟨d, -, hp⟩ | ⟨-, hp⟩⟩
    · have h8 : 8 ≤ path.length := startsWithAt_length (by simp [uncBytes]) hunc (by simp [uncBytes])
      obtain ⟨rfl, -⟩ := verbatimUnc.inj hp
      obtain ⟨hle, htake⟩ := take_next (v := true) h8
      have htext : path.take (8 + (nextAt path 8 true).1.length) ++ backslash :: rest =
          path.take 8 ++ ((nextAt path 8 true).1 ++ backslash :: rest) := by
        rw [htake, append_assoc]
      have hnext : parseNextComponent ((nextAt path 8 true).1 ++ backslash :: rest) true =
          ((nextAt path 8 true).1, rest) :=
        next_append (next_no_sep (path.drop 8) true) (separator_backslash true)
      rw [parsePrefix_verbatim hle (by omega) h₁ h₂,
        ← startsWithAt_congr (take_append_take (n := 8) hle (by omega)) (by simp [uncBytes])
          (by simp [uncBytes]), hunc, if_pos rfl, htext]
      have hdrop : nextAt (path.take 8 ++ ((nextAt path 8 true).1 ++ backslash :: rest)) 8 true =
          ((nextAt path 8 true).1, rest) := by
        rw [nextAt, drop_take_append h8, hnext]
      rw [hdrop]
    · exact absurd hp (by simp)
    · exact absurd hp (by simp)
  · rcases hp with ⟨-, hp⟩ | ⟨-, -, -, hp⟩ <;> exact absurd hp (by simp)

/-- A device without name takes the text after it. -/
theorem parsePrefix_device (rest : PathBytes) (h : parsePrefix path = some (.deviceNs []))
    (hlen : path.length = 4) :
    parsePrefix (path ++ rest) = some (.deviceNs (parseNextComponent rest false).1) ∧
      path.getLast?.any (fun b => !isSepByte b) = false := by
  rcases parsePrefix_cases h with ⟨-, d, -, hp⟩ | ⟨h₁, ⟨-, hp⟩ | ⟨h₂, hp⟩⟩
  · exact absurd hp (by simp)
  · rcases hp with ⟨-, hp⟩ | ⟨-, ⟨d, -, hp⟩ | ⟨-, hp⟩⟩ <;> exact absurd hp (by simp)
  · rcases hp with ⟨h₄, -⟩ | ⟨-, -, -, hp⟩
    · have hsame : path.take 4 = (path ++ rest).take 4 :=
        (take_append_of_le_length (by omega)).symm
      constructor
      · rw [parsePrefix, ← startsWithAt_congr hsame (by simp) (by simp), h₁, if_pos rfl]
        change (if startsVerbatim _ = true then _ else _) = _
        rw [← startsVerbatim_congr hsame (by omega), h₂, if_neg (by simp),
          ← startsWithAt_congr hsame (by simp) (by simp), h₄, if_pos rfl, drop_left' hlen]
      · match path, hlen with
        | [a, b, c, d], _ =>
          have hd := (startsWithAt_iff (by simp)).mp h₄
          simp only [drop_succ_cons, drop_zero, length_cons, length_nil, take_succ_cons, take_zero,
            map_cons, map_nil, List.cons.injEq, and_true] at hd
          have hsep : d = backslash ∨ d = slash := by
            by_cases hslash : d = slash
            · exact .inr hslash
            · rw [if_neg hslash] at hd
              exact .inl hd.2
          rcases hsep with rfl | rfl <;> rfl
    · exact absurd hp (by simp)

lemma getLast_not_sep (hname : name ≠ []) (h : ∀ b ∈ name, (!separator false b) = true) :
    (l ++ name).getLast?.any (fun b => !isSepByte b) = true := by
  rw [getLast?_append_of_ne_nil _ hname, getLast?_eq_some_getLast hname]
  exact h _ (getLast_mem hname)

theorem last_of_prefix (h : parsePrefix path = some p) (hv : p.isVerbatim = false)
    (hdrive : p.isDrive = false) (hdrop : path.drop p.len = []) (hne : p ≠ .deviceNs []) :
    path.getLast?.any (fun b => !isSepByte b) = true := by
  have htake : path.take p.len = path := take_of_length_le (drop_eq_nil_iff.mp hdrop)
  rcases parsePrefix_cases h with ⟨-, d, -, rfl⟩ | ⟨-, ⟨-, hp⟩ | ⟨-, hp⟩⟩
  · exact absurd hdrive (by simp [isDrive])
  · rcases hp with ⟨-, rfl⟩ | ⟨-, ⟨d, -, rfl⟩ | ⟨-, rfl⟩⟩ <;> exact absurd hv (by simp [isVerbatim])
  · rcases hp with ⟨h₄, rfl⟩ | ⟨-, -, hshare, rfl⟩
    · have hname : (nextAt path 4 false).1 ≠ [] := fun hnil => hne (by rw [hnil])
      obtain ⟨-, htext⟩ := take_next (v := false) (length_of_startsWith h₄)
      rw [← htake, PathPrefix.len, htext]
      exact getLast_not_sep hname (next_no_sep (path.drop 4) false)
    · obtain ⟨s, -, htext, -⟩ := share_cases (path.drop 2) false hshare
      have hlast := getLast_not_sep (l := path.take 2 ++ ((nextAt path 2 false).1 ++ [s])) hshare
        (next_no_sep (nextAt path 2 false).2 false)
      rw [← htake, PathPrefix.len, take_add, nextAt, htext]
      rw [nextAt] at hlast
      simpa using hlast

end WindowsPrefix

end GpuiFast
