/-
# Replay of a file

`replay_file` reads a stream of framed messages: a two-byte big-endian length, then that many
bytes.  A frame of length zero is skipped, and the loop ends as soon as a read finds fewer bytes
than it asks for, be it in a length or in a message.

The file is its contents.  Every turn of the loop takes at least the two bytes of a length, so
the number of bytes is enough fuel for the loop.
-/
import TickPlant.Itch.Replay

namespace TickPlant.ITCHReplay

/-- `f.read(buf, n)`: the bytes read and what is left of the stream.  It fails exactly when fewer
than `n` bytes remain. -/
def readBytes (n : ℕ) (f : Bytes) : Option (Bytes × Bytes) :=
  if n ≤ f.length then some (f.take n, f.drop n) else none

/-- The loop of `replay_file`, on at most `fuel` turns. -/
def replayLoop : ℕ → Bytes → ITCHReplay → ℕ → Except Exn (ITCHReplay × ℕ)
  | 0, _, r, count => .ok (r, count)
  | fuel + 1, f, r, count =>
    match readBytes 2 f with
    | none => .ok (r, count)
    | some (lenBuf, f) =>
      let msgLen := ru16 lenBuf
      if msgLen = 0 then replayLoop fuel f r count
      else
        match readBytes msgLen f with
        | none => .ok (r, count)
        | some (msg, f) => do
          let (r, handled) ← r.processMessage msg
          replayLoop fuel f r (if handled then count + 1 else count)

/-- `ITCHReplay::replay_file`, for the contents of the file: the new state and the number of
messages handled. -/
def replayFile (r : ITCHReplay) (f : Bytes) : Except Exn (ITCHReplay × ℕ) :=
  replayLoop f.length f r 0

/-! ## Frames -/

/-- A message with its length in front. -/
def frame (body : Bytes) : Bytes := wu16 body.length ++ body

/-- The first byte is one of the types that `process_message` handles. -/
def isHandled (body : Bytes) : Bool := body.head?.any fun type => type ∈ bytes "AFECXDU"

lemma length_frame (body : Bytes) : (frame body).length = body.length + 2 := by
  rw [frame, List.length_append, Nat.add_comm]
  rfl

lemma readBytes_append {n : ℕ} {s : Bytes} (hs : s.length = n) (rest : Bytes) :
    readBytes n (s ++ rest) = some (s, rest) := by
  subst hs
  simp [readBytes]

lemma readBytes_short {n : ℕ} {f : Bytes} (h : f.length < n) : readBytes n f = none := by
  rw [readBytes, if_neg (by omega)]

/-- The types with a handler. -/
lemma isSome_kindOf : ∀ type : UInt8, (kindOf type).isSome = decide (type ∈ bytes "AFECXDU") := by
  decide +kernel

/-- `process_message` returns whether it has a handler. -/
lemma handled_of_processMessage {r r' : ITCHReplay} {body : Bytes} {handled : Bool}
    (h : r.processMessage body = .ok (r', handled)) : handled = isHandled body := by
  cases body with
  | nil =>
    cases h
    rfl
  | cons type body =>
    have hok : ∀ {op : Except Exn ITCHReplay},
        (do return (← op, true)) = (.ok (r', handled) : Except Exn (ITCHReplay × Bool)) →
          handled = true := by
      intro op hop
      cases op with
      | error e => cases hop
      | ok r => exact (Prod.mk.inj (Except.ok.inj hop)).2.symm
    have hhandled : isHandled (type :: body) = (kindOf type).isSome := by
      rw [isSome_kindOf]
      rfl
    rw [processMessage] at h
    rw [hhandled]
    cases hkind : kindOf type with
    | none =>
      simp only [hkind] at h
      exact (Prod.mk.inj (Except.ok.inj h)).2.symm
    | some kind =>
      simp only [hkind] at h
      cases kind <;> exact hok h

/-! ## The loop over the frames -/

/-- One complete frame. -/
lemma replayLoop_frame {body : Bytes} (hbody : body.length ≤ 65535) (fuel : ℕ) (rest : Bytes)
    (r : ITCHReplay) (count : ℕ) :
    replayLoop (fuel + 1) (frame body ++ rest) r count =
      if body = [] then replayLoop fuel rest r count
      else (Prod.fst <$> r.processMessage body).bind fun r =>
        replayLoop fuel rest r (if isHandled body then count + 1 else count) := by
  have hlen : ru16 (wu16 body.length) = body.length := ru16_wu16 (by omega)
  have hread : readBytes 2 (wu16 body.length ++ (body ++ rest)) =
      some (wu16 body.length, body ++ rest) :=
    readBytes_append (s := wu16 body.length) rfl _
  rw [replayLoop, frame, List.append_assoc, hread]
  simp only [hlen, List.length_eq_zero_iff]
  split
  · rename_i hnil
    rw [hnil, List.nil_append]
  · rw [readBytes_append rfl]
    cases hmsg : r.processMessage body with
    | error e => simp [hmsg, Except.bind, bind]
    | ok p =>
      rw [← handled_of_processMessage hmsg]
      simp [hmsg, Except.bind, bind]

/-- A part of a frame ends the loop. -/
lemma replayLoop_partial {body tail : Bytes} (hbody : body.length ≤ 65535)
    (htail : tail <+: frame body) (hne : tail ≠ frame body) (fuel : ℕ) (r : ITCHReplay)
    (count : ℕ) :
    replayLoop fuel tail r count = .ok (r, count) := by
  cases fuel with
  | zero => rfl
  | succ fuel =>
    have hshort : tail.length < body.length + 2 := by
      rw [← length_frame]
      exact lt_of_le_of_ne htail.length_le fun h => hne (htail.eq_of_length h)
    rw [replayLoop]
    rcases Nat.lt_or_ge tail.length 2 with hlt | hge
    · -- the length itself is cut off
      rw [readBytes_short hlt]
    · -- the message is cut off, so it has bytes
      obtain ⟨part, rfl⟩ : ∃ part, tail = wu16 body.length ++ part := by
        obtain ⟨rest, hrest⟩ := htail
        refine ⟨tail.drop 2, ?_⟩
        have hsame : (tail ++ rest).take 2 = tail.take 2 := List.take_append_of_le_length hge
        have htake : tail.take 2 = wu16 body.length := by
          rw [← hsame, hrest]
          rfl
        rw [← htake, List.take_append_drop]
      have hpart : part.length < body.length := by simpa [wu16] using hshort
      have hlen : ru16 (wu16 body.length) = body.length := ru16_wu16 (by omega)
      have hread : readBytes 2 (wu16 body.length ++ part) = some (wu16 body.length, part) :=
        readBytes_append (s := wu16 body.length) rfl _
      rw [hread]
      simp only [hlen, if_neg (show body.length ≠ 0 by omega)]
      rw [readBytes_short hpart]

/-- The loop over complete frames and a part of one more. -/
lemma replayLoop_frames {bodies : List Bytes} {next tail : Bytes}
    (hbodies : ∀ body ∈ bodies, body.length ≤ 65535) (hnext : next.length ≤ 65535)
    (htail : tail <+: frame next) (hne : tail ≠ frame next) {fuel : ℕ}
    (hfuel : bodies.length ≤ fuel) (r : ITCHReplay) (count : ℕ) :
    replayLoop fuel (bodies.flatMap frame ++ tail) r count =
      (·, count + bodies.countP isHandled) <$> r.processMessages (bodies.filter (· ≠ [])) := by
  induction bodies generalizing fuel r count with
  | nil => exact replayLoop_partial hnext htail hne fuel r count
  | cons body bodies ih =>
    obtain ⟨fuel, rfl⟩ : ∃ n, fuel = n + 1 := ⟨fuel - 1, by simp at hfuel; omega⟩
    have hrest := fun b hb => hbodies b (List.mem_cons_of_mem body hb)
    have hfuel' : bodies.length ≤ fuel := by simpa using hfuel
    rw [List.flatMap_cons, List.append_assoc,
      replayLoop_frame (hbodies body List.mem_cons_self)]
    by_cases hnil : body = []
    · subst hnil
      rw [if_pos rfl, ih hrest hfuel', List.countP_cons]
      rfl
    · have hfilter : (body :: bodies).filter (· ≠ []) = body :: bodies.filter (· ≠ []) := by
        simp [hnil]
      rw [if_neg hnil, hfilter, processMessages, List.foldlM_cons]
      cases r.processMessage body with
      | error e => rfl
      | ok p =>
        show replayLoop fuel _ p.1 _ = _ <$> p.1.processMessages (bodies.filter (· ≠ []))
        rw [ih hrest hfuel', List.countP_cons]
        congr 2
        funext r'
        split <;> simp_all [Nat.add_comm, Nat.add_left_comm]

/-- **A file is the sequence of its messages.**  Whatever the state, replaying the frames of a
list of messages followed by a strict part of one more frame does what `process_message` does
with the messages that are not empty, one after the other, and returns how many of the messages
have a type with a handler; the incomplete frame has no effect.  Where `process_message` throws,
so does the replay. -/
theorem replayFile_frames (r : ITCHReplay) (bodies : List Bytes) (next tail : Bytes)
    (hbodies : ∀ body ∈ bodies, body.length ≤ 65535) (hnext : next.length ≤ 65535)
    (htail : tail <+: frame next) (hne : tail ≠ frame next) :
    r.replayFile (bodies.flatMap frame ++ tail) =
      (·, bodies.countP isHandled) <$> r.processMessages (bodies.filter (· ≠ [])) := by
  have hfuel : bodies.length ≤ (bodies.flatMap frame ++ tail).length := by
    rw [List.length_append, List.length_flatMap]
    have hle : bodies.length ≤ (bodies.map fun body => (frame body).length).sum := by
      have := List.card_nsmul_le_sum (bodies.map fun body => (frame body).length) 1 (by
        intro n hn
        obtain ⟨body, -, rfl⟩ := List.mem_map.mp hn
        rw [length_frame]
        omega)
      simpa using this
    omega
  rw [replayFile, replayLoop_frames hbodies hnext htail hne hfuel, Nat.zero_add]

/-- An add, an empty frame, a message of an unknown type and a delete that is cut off: one
message is handled, and the order rests. -/
theorem replayFile_frames_cutOff :
    let add := makeAddOrder 10 66 300 (bytes "MSFT    ") 2000000 0
    let delete := makeOrderDelete 10 0
    ∃ r, replayFile {} ([add, [], [83, 0]].flatMap frame ++ (frame delete).take 9) = .ok (r, 1) ∧
      r.level (bytes "MSFT") .bid 200 = some ⟨300, 1⟩ := by
  intro add delete
  have hfile := replayFile_frames {} [add, [], [83, 0]] delete ((frame delete).take 9)
    (by decide +kernel) (by decide +kernel) (List.take_prefix _ _) (by decide +kernel)
  have hcount : [add, [], [83, 0]].countP isHandled = 1 := by decide +kernel
  have hlevel : (processMessages {} ([add, [], [83, 0]].filter (· ≠ []))).toOption.bind
      (fun r => r.level (bytes "MSFT") .bid 200) = some ⟨300, 1⟩ := by decide +kernel
  rw [hcount] at hfile
  cases hr : processMessages {} ([add, [], [83, 0]].filter (· ≠ [])) with
  | error e =>
    rw [hr] at hlevel
    cases hlevel
  | ok r =>
    rw [hr] at hfile hlevel
    exact ⟨r, hfile, hlevel⟩

end TickPlant.ITCHReplay
