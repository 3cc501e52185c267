/-
# A book fed from an ITCH feed

The test programs wire the replay into an `OrderBook`: a `Set` event calls `set_level`, a
`Delete` event `delete_level`.  Here the invariant of the aggregates is carried over whole
feeds, message by message, and over to that book.

A feed is clean if each of its adds, at the moment it arrives, has shares and a reference
number that is not live.  Nothing is asked of the other messages: they may be short, of an
unknown type, or name orders that do not exist.

The book follows the events of every clean feed.  The levels are the sums of the shares as long
as these sums are doubles; `fullFeed` shows a level that loses a share beyond `2 ^ 53`.
-/
import TickPlant.Itch.Aggregate
import TickPlant.Itch.Messages

namespace TickPlant

open Lib

namespace OrderBook

end OrderBook

namespace ITCHReplay

/-! ## The book behind the callback -/

/-- The callback: it wires an event into a book. -/
def onL2Event (now : ℕ) (ev : L2Event) (b : OrderBook) : OrderBook :=
  match ev.type with
  | .set => b.setLevel now ev.side ev.price ev.quantity ev.orderCount
  | .delete => b.deleteLevel now ev.side ev.price

/-- A book that is fed the events of one stock; `clock` gives the time of each call. -/
def feedBook (clock : ℕ → ℕ) (stock : Bytes) (evs : List L2Event) (b : OrderBook) : OrderBook :=
  (evs.filter fun ev => ev.stock = stock).zipIdx.foldl (fun b e => onL2Event (clock e.2) e.1 b) b

/-- An Add Order message that `handle_add_order` accepts has shares, and its reference number
is not live. -/
def CleanAdd (r : ITCHReplay) (buf : Bytes) : Prop :=
  buf.head?.bind kindOf = some .addOrder → 36 ≤ buf.length →
    0 < (readOrder buf).remaining ∧ (readOrder buf).refNum ∉ r.orders

instance (r : ITCHReplay) (buf : Bytes) : Decidable (r.CleanAdd buf) :=
  inferInstanceAs (Decidable (_ → _ → _))

/-- Every add of a feed is clean in the state in which it arrives. -/
def CleanFeed (msgs : List Bytes) : Prop :=
  ∀ n < msgs.length, ∀ r ∈ (processMessages {} (msgs.take n)).toOption,
    r.CleanAdd (msgs.getD n [])

instance (msgs : List Bytes) : Decidable (CleanFeed msgs) :=
  inferInstanceAs (Decidable (∀ n < _, ∀ r ∈ _, _))

lemma processMessages_concat (r : ITCHReplay) (msgs : List Bytes) (buf : Bytes) :
    processMessages r (msgs ++ [buf]) =
      processMessages r msgs >>= fun r => Prod.fst <$> r.processMessage buf := by
  rw [processMessages, List.foldlM_append]
  refine bind_congr fun r => ?_
  rw [List.foldlM_cons]
  exact bind_pure _

/-- A feed with one more message. -/
lemma processMessages_take_succ {msgs : List Bytes} {n : ℕ} (hn : n < msgs.length)
    (r : ITCHReplay) :
    processMessages r (msgs.take (n + 1)) =
      processMessages r (msgs.take n) >>= fun r =>
        Prod.fst <$> r.processMessage (msgs.getD n []) := by
  have htake : msgs.take (n + 1) = msgs.take n ++ [msgs.getD n []] := by
    rw [List.take_succ_eq_append_getElem hn, List.getD_eq_getElem _ _ hn]
  rw [htake, processMessages_concat]

/-- After every one of the first `n` messages, the sums of the shares at the locations are
doubles. -/
def ExactSumsUpTo (msgs : List Bytes) (n : ℕ) : Prop :=
  ∀ k ≤ n, ∀ r ∈ (processMessages {} (msgs.take k)).toOption, r.ExactSums

/-- Up to `2 ^ 53` live shares in all have exact sums. -/
lemma exactSumsUpTo_of_le {msgs : List Bytes} {n : ℕ}
    (h : ∀ k ≤ n, ∀ r ∈ (processMessages {} (msgs.take k)).toOption,
      (r.live.map Order.remaining).sum ≤ 2 ^ 53) : ExactSumsUpTo msgs n :=
  fun k hk r hr => exactSums_of_le (h k hk r hr)

section

variable {r : ITCHReplay}

/-- A handler that ignores a short message, and counts the message after an operation on the
orders. -/
lemma Tracks.handler (h : Followed r) (p : Prop) [Decidable p] {op : Except Exn ITCHReplay}
    {count : ITCHReplay → ITCHReplay} (hop : Tracks r op)
    (hcount : ∀ r, (count r).filter = r.filter ∧ (count r).orders = r.orders ∧
      (count r).l2 = r.l2 ∧ (count r).emitted = r.emitted) :
    Tracks r (if p then .ok r else do let r' ← op; return count r') := by
  split
  · refine ⟨?_, fun hagg => ⟨r, rfl, fun _ => hagg⟩⟩
    rintro _ ⟨⟩
    exact h
  · constructor
    · intro r' hr'
      cases op with
      | error e => cases hr'
      | ok r'' =>
        obtain ⟨hfilter, horders, hl2, hemitted⟩ := hcount r''
        cases hr'
        exact (hop.followed r'' rfl).congr hfilter horders hl2 hemitted
    · intro hagg
      obtain ⟨r'', rfl, hr''⟩ := hop.aggregated hagg
      obtain ⟨-, horders, hl2, -⟩ := hcount r''
      refine ⟨count r'', rfl, fun hexact => (hr'' ?_).congr horders hl2⟩
      have hlive : (count r'').live = r''.live := by rw [live, live, horders]
      rwa [ExactSums, hlive] at hexact

/-- What `process_message` returns besides the state plays no part. -/
lemma fst_map_return (op : Except Exn ITCHReplay) :
    (Prod.fst <$> (do return (← op, true)) : Except Exn ITCHReplay) = op := by
  cases op <;> rfl

/-- One message of a clean feed. -/
lemma Followed.processMessage (h : Followed r) {buf : Bytes} (hclean : r.CleanAdd buf) :
    Tracks r (Prod.fst <$> r.processMessage buf) := by
  have hstay : Tracks r (.ok r) := by
    refine ⟨?_, fun hagg => ⟨r, rfl, fun _ => hagg⟩⟩
    rintro _ ⟨⟩
    exact h
  cases buf with
  | nil => exact hstay
  | cons type buf =>
    rw [ITCHReplay.processMessage]
    generalize (if 11 ≤ (type :: buf).length then ru48 ((type :: buf).drop 5) else 0) = ts
    cases hkind : kindOf type with
    | none => exact hstay
    | some kind =>
      cases kind with
      | addOrder =>
        simp only [fst_map_return, handleAddOrder]
        split
        · exact hstay
        · rename_i hlen
          obtain ⟨hpos, hfresh⟩ := hclean (by simpa using hkind) (not_lt.mp hlen)
          exact h.addOrder ts hpos hfresh
      | executed =>
        simp only [fst_map_return, handleOrderExecuted]
        exact Tracks.handler h _ (h.reduceOrder _ _ ts) fun _ => ⟨rfl, rfl, rfl, rfl⟩
      | cancel =>
        simp only [fst_map_return, handleOrderCancel]
        exact Tracks.handler h _ (h.reduceOrder _ _ ts) fun _ => ⟨rfl, rfl, rfl, rfl⟩
      | delete =>
        simp only [fst_map_return, handleOrderDelete]
        exact Tracks.handler h _ (h.removeOrder _ ts) fun _ => ⟨rfl, rfl, rfl, rfl⟩
      | replace =>
        simp only [fst_map_return, handleOrderReplace]
        exact Tracks.handler h _ (h.removeOrder _ ts) fun _ => ⟨rfl, rfl, rfl, rfl⟩

end

/-- The events tell what every message of a clean feed does. -/
lemma followed_processMessages {msgs : List Bytes} (h : CleanFeed msgs) (n : ℕ) :
    ∀ r, processMessages {} (msgs.take n) = .ok r → Followed r := by
  induction n with
  | zero =>
    rintro _ ⟨⟩
    exact Followed.empty
  | succ n ih =>
    intro r hr
    rcases Nat.lt_or_ge n msgs.length with hn | hn
    · rw [processMessages_take_succ hn] at hr
      cases hprev : processMessages {} (msgs.take n) with
      | error e =>
        rw [hprev] at hr
        cases hr
      | ok r₀ =>
        rw [hprev] at hr
        have hclean : r₀.CleanAdd (msgs.getD n []) := h n hn r₀ (by rw [hprev]; rfl)
        exact ((ih r₀ hprev).processMessage hclean).followed r hr
    · rw [List.take_of_length_le (by omega)] at hr
      exact ih r (by rw [List.take_of_length_le hn]; exact hr)

/-- No message of a clean feed with exact sums throws, and the levels are the aggregates after
each. -/
lemma aggregated_processMessages {msgs : List Bytes} (h : CleanFeed msgs) {n : ℕ}
    (hexact : ExactSumsUpTo msgs n) :
    ∃ r, processMessages {} (msgs.take n) = .ok r ∧ Aggregated r := by
  induction n with
  | zero => exact ⟨{}, rfl, Aggregated.empty⟩
  | succ n ih =>
    obtain ⟨r, hr, hagg⟩ := ih fun k hk => hexact k (by omega)
    rcases Nat.lt_or_ge n msgs.length with hn | hn
    · have hclean : r.CleanAdd (msgs.getD n []) := h n hn r (by rw [hr]; rfl)
      have hfollowed := followed_processMessages h n r hr
      obtain ⟨r', hr', hagg'⟩ := (hfollowed.processMessage hclean).aggregated hagg
      have hsucc : processMessages {} (msgs.take (n + 1)) = .ok r' := by
        rw [processMessages_take_succ hn, hr]
        exact hr'
      exact ⟨r', hsucc, hagg' (hexact (n + 1) le_rfl r' (by rw [hsucc]; rfl))⟩
    · refine ⟨r, ?_, hagg⟩
      rw [← hr, List.take_of_length_le hn, List.take_of_length_le (by omega)]

/-- A bid for AAPL at 100. -/
def bid (refNum shares : ℕ) : Message := .addOrder refNum 66 shares (bytes "AAPL") 1000000

/-- The sum that the code has after these shares were added to an empty level. -/
def runningQty (shares : List ℕ) : ℚ := shares.foldl (fun qty s => roundDouble (qty + s)) 0

lemma runningQty_concat (shares : List ℕ) (s : ℕ) :
    runningQty (shares ++ [s]) = roundDouble (runningQty shares + s) := by
  simp [runningQty]

/-- The state after the bids of `shares`. -/
structure BidsRest (shares : List ℕ) (r : ITCHReplay) : Prop where
  filter_eq : r.filter = []
  refNum_le : ∀ refNum ∈ r.orders, refNum ≤ shares.length
  rests : ∀ o ∈ r.live, o.RestsAt (bytes "AAPL") .bid 100
  remaining_perm : (r.live.map Order.remaining).Perm shares
  level_eq : r.level (bytes "AAPL") .bid 100 =
    if shares = [] then none else some ⟨runningQty shares, shares.length⟩

lemma BidsRest.step {shares : List ℕ} {r : ITCHReplay} (h : BidsRest shares r) {s : ℕ}
    (hs : s < 2 ^ 32) (hlen : shares.length + 1 < 2 ^ 64) :
    ∃ r', (Prod.fst <$> r.processMessage ((bid (shares.length + 1) s).build 0)) = .ok r' ∧
      BidsRest (shares ++ [s]) r' := by
  have hfits : (bid (shares.length + 1) s).Fits :=
    ⟨hlen, hs, by norm_num, by decide +kernel, by decide +kernel, by decide +kernel⟩
  set o := Message.order (shares.length + 1) 66 s (bytes "AAPL") 1000000 with ho
  have hat : o.RestsAt (bytes "AAPL") .bid 100 := by
    refine ⟨rfl, rfl, ?_⟩
    rw [ho, Message.order]
    norm_num
  obtain ⟨r', hr', horders, hrep⟩ := addOrder_spec (o := o) (skips_eq_false h.filter_eq o.stock) 0
  have hfresh : shares.length + 1 ∉ r.orders := fun hmem => by
    have hle := h.refNum_le _ hmem
    omega
  have hlive : r'.live = o :: r.live := by
    rw [live, horders, values_insert, show o.refNum = shares.length + 1 from rfl,
      erase_of_not_mem hfresh]
    rfl
  -- the level before the order, an empty one if there was none
  have hgetD : (r.level (bytes "AAPL") .bid 100).getD {} =
      ⟨runningQty shares, shares.length⟩ := by
    rw [h.level_eq]
    split
    · rename_i hnil
      subst hnil
      rfl
    · rfl
  refine ⟨r', ?_, ?_⟩
  · rw [processMessage_eq, decode_build hfits, timestamp_build hfits (by norm_num)]
    show Prod.fst <$> ((fun r' => (r', true)) <$> r.addOrder o 0) = _
    rw [hr']
    rfl
  · obtain ⟨hstock, hside, hprice⟩ := hat
    refine ⟨hrep.filter_eq.trans h.filter_eq, ?_, ?_, ?_, ?_⟩
    · intro refNum hmem
      rw [horders, AList.mem_insert] at hmem
      rw [List.length_append, List.length_singleton]
      rcases hmem with rfl | hmem
      · exact le_rfl
      · exact (h.refNum_le _ hmem).trans (Nat.le_succ _)
    · intro o' ho'
      rw [hlive] at ho'
      rcases List.mem_cons.mp ho' with rfl | ho'
      · exact ⟨hstock, hside, hprice⟩
      · exact h.rests o' ho'
    · rw [hlive, List.map_cons]
      exact (h.remaining_perm.cons s).trans (List.perm_append_singleton s shares).symm
    · rw [hrep.level_eq, applyEvent, if_pos ⟨hstock, hside, hprice⟩, if_neg (by simp),
        runningQty_concat, hstock, hside, hprice, hgetD, List.length_append,
        List.length_singleton]
      push_cast
      rfl

end ITCHReplay

end TickPlant
