/-
What a run of `read`s returns: the data lines of the file in order, and
with `loop` the same lines round and round.

# Two levels

`replay` is what the source is for: a cursor into the list of data lines,
which moves on by one and, at the end, stays or starts over. `read`
follows it (`read_replay`): the lines still in the stream are those from
the cursor on, whatever mix of state bits a last line with or without a
newline has left behind. Where the cursor stands after `n` reads is then
arithmetic (`replay_counts`).

# Termination

Each turn of the skip loop makes `unread` smaller, and `unread` never
exceeds the size of the file by more than one.
-/
import EdgeIpc.Lib.Run
import EdgeIpc.Daemon.FileSource

namespace EdgeIpc.Daemon

open Lib

-- =============================================================== data lines

/-- The lines of a file that are data, in order: split at the newlines, a
last line without one included. -/
def dataLines (content : List Char) : List (List Char) :=
  (content.splitOn '\n').filter isData

theorem dataLines_line {line : List Char} (h : '\n' ∉ line) :
    dataLines line = [line].filter isData := by
  rw [dataLines, List.splitOn_eq_singleton h]

theorem dataLines_append (x y : List Char) :
    dataLines (x ++ '\n' :: y) = dataLines x ++ dataLines y := by
  rw [dataLines, List.splitOn_append_cons_self, List.filter_append]
  rfl

/-- What `getline` extracts has no newline in it, and stops at one or at
the end. -/
theorem extracted_line (rest : List Char) :
    '\n' ∉ rest.takeWhile (· != '\n')
      ∧ (rest.dropWhile (· != '\n') = [] ∧ rest.takeWhile (· != '\n') = rest
        ∨ ∃ after, rest.dropWhile (· != '\n') = '\n' :: after
          ∧ rest = rest.takeWhile (· != '\n') ++ '\n' :: after) := by
  have hcut := List.takeWhile_append_dropWhile (p := (· != '\n')) (l := rest)
  constructor
  · intro hmem
    have hall := List.all_eq_true.mp
      (List.all_takeWhile (p := (· != '\n')) (l := rest)) '\n' hmem
    exact absurd hall (by decide)
  · have hstop := List.head?_dropWhile_not (· != '\n') rest
    cases hd : rest.dropWhile (· != '\n') with
    | nil =>
        rw [hd, List.append_nil] at hcut
        exact .inl ⟨rfl, hcut⟩
    | cons c after =>
        rw [hd] at hcut hstop
        have hc : c = '\n' := by simpa using hstop
        subst hc
        exact .inr ⟨after, rfl, hcut.symm⟩

-- ================================================================ the stream

namespace IfStream

/-- The data lines still to be extracted. -/
def pending (f : IfStream) : List (List Char) :=
  if f.eofbit || f.failbit then [] else dataLines f.rest

/-- A bound on the calls of `getline` that can still succeed. -/
def unread (f : IfStream) : Nat :=
  if f.eofbit || f.failbit then 0 else f.rest.length + 1

/-- `getline` fails with nothing left, or takes the next line off. -/
theorem getline_cases (f : IfStream) :
    (∃ f', f.getline = (f', none) ∧ f.pending = [] ∧ f'.pending = []
        ∧ f'.unread ≤ f.unread)
      ∨ ∃ f' line, f.getline = (f', some line)
        ∧ f.pending = [line].filter isData ++ f'.pending
        ∧ f'.unread < f.unread := by
  by_cases hbad : (f.eofbit || f.failbit) = true
  · refine .inl ⟨{ f with failbit := true }, ?_, ?_, ?_, ?_⟩
    · rw [getline, if_pos hbad]
    · rw [pending, if_pos hbad]
    · rw [pending, Bool.or_true, if_pos rfl]
    · rw [unread, Bool.or_true, if_pos rfl]
      exact Nat.zero_le _
  · have hpend : f.pending = dataLines f.rest := if_neg hbad
    have hunread : f.unread = f.rest.length + 1 := if_neg hbad
    by_cases hend : f.rest.isEmpty = true
    · have hrest := List.isEmpty_iff.mp hend
      refine .inl ⟨{ f with eofbit := true, failbit := true }, ?_, ?_, rfl,
        Nat.zero_le _⟩
      · rw [getline, if_neg hbad, if_pos hend]
      · rw [hpend, hrest]
        rfl
    · obtain ⟨hline, ⟨hdrop, htake⟩ | ⟨after, hdrop, hcut⟩⟩ :=
        extracted_line f.rest
      · -- the last line, with no newline behind it
        refine .inr ⟨{ f with rest := [], eofbit := true }, f.rest, ?_, ?_, ?_⟩
        · simp only [getline, if_neg hbad, if_neg hend, hdrop, htake]
        · rw [htake] at hline
          rw [hpend, dataLines_line hline]
          exact (List.append_nil _).symm
        · rw [hunread]
          exact Nat.succ_pos _
      · refine .inr ⟨{ f with rest := after },
          f.rest.takeWhile (· != '\n'), ?_, ?_, ?_⟩
        · simp only [getline, if_neg hbad, if_neg hend, hdrop]
        · calc f.pending
              = dataLines (f.rest.takeWhile (· != '\n') ++ '\n' :: after) := by
                rw [← hcut, hpend]
            _ = _ := by
                rw [dataLines_append, dataLines_line hline, pending,
                  if_neg hbad]
        · have hlen := congrArg List.length hcut
          rw [List.length_append, List.length_cons] at hlen
          rw [hunread, unread, if_neg hbad]
          show after.length + 1 < f.rest.length + 1
          omega

end IfStream

namespace FileSource

/-- The skip loop comes to an end, with the first line still pending. -/
theorem fetch_pending : ∀ (fuel : Nat) (f : IfStream), f.unread < fuel →
    ∃ f', fetch fuel f = some (f', f.pending.head?)
      ∧ f'.pending = f.pending.tail ∧ f'.unread ≤ f.unread
  | 0, _, h => absurd h (Nat.not_lt_zero _)
  | fuel + 1, f, h => by
      rcases f.getline_cases with ⟨f', hget, hp, hp', hle⟩
        | ⟨f', line, hget, hp, hlt⟩
      · refine ⟨f', ?_, ?_, hle⟩
        · rw [hp]
          simp only [fetch, hget, List.head?_nil]
        · rw [hp, hp', List.tail_nil]
      · by_cases hdata : isData line = true
        · rw [List.filter_cons_of_pos hdata, List.filter_nil] at hp
          refine ⟨f', ?_, ?_, Nat.le_of_lt hlt⟩
          · rw [hp]
            simp only [fetch, hget, if_pos hdata, List.singleton_append,
              List.head?_cons]
          · rw [hp, List.singleton_append, List.tail_cons]
        · -- a skipped line: one turn of the loop, less to read
          rw [List.filter_cons_of_neg hdata, List.filter_nil,
            List.nil_append] at hp
          obtain ⟨f'', hf, hp', hle⟩ :=
            fetch_pending fuel f' (by omega)
          refine ⟨f'', ?_, ?_, Nat.le_trans hle (Nat.le_of_lt hlt)⟩
          · simp only [fetch, hget, if_neg hdata]
            rw [hf, hp]
          · rw [hp', hp]

/-- A reopened file is read from the top, however the last read of it
ended. -/
theorem reopen_file (content : List Char) (s : FileSource) :
    (s.reopen (some content)).file
      = { isOpen := true, rest := content } := by
  have hclosed : s.file.close.isOpen = false := by
    unfold IfStream.close
    split
    next => rfl
    next h => exact Bool.eq_false_iff.mpr h
  show s.file.close.openPath (some content) = _
  simp only [IfStream.openPath, hclosed]

-- ================================================================ the replay

/-- One read of a list of lines from the position `q`: the line there and
the next position; behind the last line, that of the top or none. -/
def replay (loop : Bool) (lines : List (List Char)) (q : Nat) :
    Option (List Char) × Nat :=
  match lines[q]? with
  | some line => (some line, q + 1)
  | none => if loop then (lines[0]?, min 1 lines.length) else (none, q)

/-- The source stands at `q` of the data lines of `content`. -/
structure At (content : List Char) (sid : String) (loop : Bool) (q : Nat)
    (s : FileSource) : Prop where
  name : s.sensorId = sid
  mode : s.loop = loop
  place : s.file.pending = (dataLines content).drop q
  bound : s.file.unread ≤ content.length + 1

theorem at_construct (content : List Char) (sid : String) (loop : Bool) :
    At content sid loop 0 (construct sid loop (some content)) :=
  ⟨rfl, rfl, rfl, Nat.le_refl _⟩

theorem parse_eq {R : Type} (stod : List Char → Option R) (sid : String)
    (now : Nat) (line : List Char) :
    parse stod sid now line = (stod line).map (⟨sid, ·, now⟩) := by
  unfold parse
  cases stod line <;> rfl

section Read

variable {R : Type} {content : List Char} {sid : String} {loop : Bool}
  {q fuel : Nat} {s : FileSource}

/-- The place is known by the lines from there on. -/
theorem At.congr {q' : Nat} (h : At content sid loop q s)
    (heq : (dataLines content).drop q = (dataLines content).drop q') :
    At content sid loop q' s :=
  ⟨h.name, h.mode, h.place.trans heq, h.bound⟩

theorem at_reopen (h : At content sid loop q s) :
    At content sid loop 0 (s.reopen (some content)) := by
  refine ⟨h.name, h.mode, ?_, ?_⟩
  · rw [reopen_file]
    rfl
  · rw [reopen_file]
    exact Nat.le_refl _

/-- `fetch` finds the line at the source's place and moves it on. -/
theorem fetch_at (hfuel : content.length + 2 ≤ fuel)
    (h : At content sid loop q s) :
    ∃ f, fetch fuel s.file = some (f, (dataLines content)[q]?)
      ∧ At content sid loop (q + 1) { s with file := f } := by
  have hbound := h.bound
  obtain ⟨f, hf, hp, hle⟩ := fetch_pending fuel s.file (by omega)
  rw [h.place, List.head?_drop] at hf
  rw [h.place, List.tail_drop] at hp
  exact ⟨f, hf, h.name, h.mode, hp, Nat.le_trans hle hbound⟩

/-- A `read` takes one line of the replay and parses it. -/
theorem read_replay (stod : List Char → Option R)
    (hfuel : content.length + 2 ≤ fuel) (h : At content sid loop q s)
    (now : Nat) :
    ∃ s', s.read fuel (some content) stod now
        = some (s', (replay loop (dataLines content) q).1.bind
            (parse stod sid now))
      ∧ At content sid loop (replay loop (dataLines content) q).2 s' := by
  obtain ⟨f, hf, hat⟩ := fetch_at hfuel h
  cases hline : (dataLines content)[q]? with
  | some line =>
      rw [hline] at hf
      refine ⟨{ s with file := f }, ?_, ?_⟩
      · simp only [read, hf, replay, hline, h.name, Option.bind_some]
      · simp only [replay, hline]
        exact hat
  | none =>
      rw [hline] at hf
      cases loop with
      | false =>
          have hend := List.getElem?_eq_none_iff.mp hline
          refine ⟨{ s with file := f }, ?_, ?_⟩
          · simp only [read, hf, replay, hline, h.mode, Bool.not_false,
              if_true, Bool.false_eq_true, if_false, Option.bind_none]
          · simp only [replay, hline, Bool.false_eq_true, if_false]
            refine hat.congr ?_
            rw [List.drop_eq_nil_of_le hend,
              List.drop_eq_nil_of_le (Nat.le_succ_of_le hend)]
      | true =>
          -- from the top, in the same call
          obtain ⟨f', hf', hat'⟩ := fetch_at hfuel (at_reopen hat)
          rw [h.mode] at hf'
          refine ⟨{ s with file := f' }, ?_, ?_⟩
          · simp only [read, hf, h.mode, Bool.not_true, Bool.false_eq_true,
              if_false, hf', replay, hline, if_true]
            cases (dataLines content)[0]? with
            | none => rfl
            | some line =>
                simp only [Option.bind_some, ← h.name]
                rfl
          · simp only [replay, hline, if_true]
            refine hat'.congr ?_
            cases dataLines content with
            | nil => rfl
            | cons line lines =>
                rw [List.length_cons, Nat.min_eq_left (Nat.succ_pos _)]

end Read

-- ==================================================== the n-th line replayed

/-- Where the cursor may stand after `n` reads. -/
def Counts (loop : Bool) (lines : List (List Char)) (n q : Nat) : Prop :=
  q ≤ lines.length
    ∧ if loop then lines ≠ [] → q % lines.length = n % lines.length
      else q = min n lines.length

theorem counts_zero (loop : Bool) (lines : List (List Char)) :
    Counts loop lines 0 0 := by
  refine ⟨Nat.zero_le _, ?_⟩
  cases loop with
  | true => exact fun _ => rfl
  | false => exact (Nat.zero_min _).symm

/-- Once through: line `n`, while there is one. -/
theorem replay_once {lines : List (List Char)} {n q : Nat}
    (h : Counts false lines n q) :
    (replay false lines q).1 = lines[n]?
      ∧ Counts false lines (n + 1) (replay false lines q).2 := by
  obtain ⟨hle, hq⟩ := h
  change q = min n lines.length at hq
  by_cases hn : n < lines.length
  · obtain rfl : q = n := by omega
    simp only [replay, List.getElem?_eq_getElem hn, true_and]
    exact ⟨hn, (Nat.min_eq_left hn).symm⟩
  · obtain rfl : q = lines.length := by omega
    have hnone := List.getElem?_eq_none (Nat.le_of_not_lt hn)
    simp only [replay, List.getElem?_eq_none (Nat.le_refl _),
      Bool.false_eq_true, if_false, hnone, true_and]
    refine ⟨Nat.le_refl _, ?_⟩
    show lines.length = min (n + 1) lines.length
    omega

/-- Round and round: line `n` modulo the number of lines. -/
theorem replay_round {lines : List (List Char)} {n q : Nat}
    (h : Counts true lines n q) :
    (replay true lines q).1 = lines[n % lines.length]?
      ∧ Counts true lines (n + 1) (replay true lines q).2 := by
  obtain ⟨hle, hq⟩ := h
  by_cases hnil : lines = []
  · subst hnil
    exact ⟨rfl, Nat.le_refl _, fun h => absurd rfl h⟩
  · have hmod : q % lines.length = n % lines.length := hq hnil
    have hpos := List.length_pos_iff.mpr hnil
    by_cases hlt : q < lines.length
    · rw [Nat.mod_eq_of_lt hlt] at hmod
      simp only [replay, List.getElem?_eq_getElem hlt, ← hmod, true_and]
      refine ⟨hlt, fun _ => ?_⟩
      rw [Nat.add_mod n, ← hmod, Nat.add_mod q, Nat.mod_eq_of_lt hlt]
    · -- behind the last line, `n` is a multiple of their number
      obtain rfl : q = lines.length := by omega
      rw [Nat.mod_self] at hmod
      simp only [replay, List.getElem?_eq_none (Nat.le_refl _), if_true,
        ← hmod, true_and]
      rw [Nat.min_eq_left hpos]
      refine ⟨hpos, fun _ => ?_⟩
      rw [Nat.add_mod n, ← hmod, Nat.zero_add, Nat.mod_mod]

/-- The line read and the cursor's next place, by the number of reads
before. -/
theorem replay_counts {loop : Bool} {lines : List (List Char)} {n q : Nat}
    (h : Counts loop lines n q) :
    (replay loop lines q).1
        = lines[if loop then n % lines.length else n]?
      ∧ Counts loop lines (n + 1) (replay loop lines q).2 := by
  cases loop with
  | false => exact replay_once h
  | true => exact replay_round h

/-- Replay law, for every file that can be opened and does not change. All
fuel beyond the size of the file is enough for every `read`, so that each
comes to an end. The `read` after `n` others takes data line `n`, counted
round the lines with `loop` and once through them without, and returns its
frame if `std::stod` accepts it; it returns nothing if there is no such
line: past the last without `loop`, or in a file with no data at all. -/
theorem replay_law {R : Type} (stod : List Char → Option R)
    (content : List Char) (sid : String) (loop : Bool) {fuel : Nat}
    (hfuel : content.length + 2 ≤ fuel) (before : List Nat) (now : Nat) :
    ∃ s s', exec (step fuel (some content) stod) before
          (construct sid loop (some content)) = some s
      ∧ s.read fuel (some content) stod now
        = some (s', ((dataLines content)[if loop
            then before.length % (dataLines content).length
            else before.length]?).bind
              fun line => (stod line).map (⟨sid, ·, now⟩)) := by
  have hrun : ∃ s, exec (step fuel (some content) stod) before
        (construct sid loop (some content)) = some s
      ∧ ∃ q, At content sid loop q s
        ∧ Counts loop (dataLines content) (0 + before.length) q := by
    refine exec_counted (fun n s => ∃ q, At content sid loop q s
        ∧ Counts loop (dataLines content) n q) ?_
      before ⟨0, at_construct content sid loop, counts_zero loop _⟩
    rintro n s now ⟨q, hat, hcount⟩
    obtain ⟨s', hread, hat'⟩ := read_replay stod hfuel hat now
    refine ⟨s', ?_, _, hat', (replay_counts hcount).2⟩
    rw [step, hread]
    rfl
  obtain ⟨s, hs, q, hat, hcount⟩ := hrun
  rw [Nat.zero_add] at hcount
  obtain ⟨s', hread, -⟩ := read_replay stod hfuel hat now
  refine ⟨s, s', hs, ?_⟩
  rw [hread, (replay_counts hcount).1, funext (parse_eq stod sid now)]

/-- A comment, an empty line and a line that is no number, the last line
without a newline: the fourth read starts over. -/
theorem replay_law_around :
    let content := "1\n#2\n\nx\n3".toList
    let stod : List Char → Option Nat := fun line =>
      if line = ['1'] then some 1 else if line = ['3'] then some 3 else none
    ∃ s s', exec (step 11 (some content) stod) [0, 1, 2]
          (construct "s" true (some content)) = some s
      ∧ s.read 11 (some content) stod 5 = some (s', some ⟨"s", 1, 5⟩) :=
  replay_law _ _ "s" true (by decide) [0, 1, 2] 5

end FileSource

end EdgeIpc.Daemon
