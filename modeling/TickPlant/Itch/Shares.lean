/-
# Feeds whose adds carry shares

If each add carries at least one share, and the sums of the shares at each location are doubles,
the quantity and the count of a level cover the live orders that rest there; they can be larger,
since an add with a reference number that is live already replaces the order but not its shares in
the level.  So the test that erases a level, no order or no quantity left, never hits one on which
another order rests.  Rounding does no harm to this: it is monotone, so what is rounded still covers
a sum that is a double.
-/
import TickPlant.Itch.Lookups

namespace TickPlant.ITCHReplay

open Lib

/-! ## Levels that cover orders -/

/-- The level has at least the quantity and the count of the orders. -/
def LevelInfo.Covers (info : LevelInfo) (l : List Order) : Prop :=
  (total l).qty ≤ info.qty ∧ (total l).count ≤ info.count

namespace LevelInfo.Covers

variable {info : LevelInfo} {o : Order} {l : List Order}

lemma total_nonneg (l : List Order) : 0 ≤ (total l).qty ∧ 0 ≤ (total l).count :=
  ⟨Nat.cast_nonneg _, Int.natCast_nonneg _⟩

lemma congr {l' : List Order} (h : info.Covers l) (hperm : l.Perm l') : info.Covers l' := by
  rwa [LevelInfo.Covers, total, hperm.length_eq, (hperm.map Order.remaining).sum_eq] at h

lemma cons (h : info.Covers l) (o : Order) :
    LevelInfo.Covers ⟨info.qty + o.remaining, info.count + 1⟩ (o :: l) := by
  rw [LevelInfo.Covers, total_cons]
  exact ⟨by linarith [h.1], by linarith [h.2]⟩

lemma of_cons (h : info.Covers (o :: l)) :
    LevelInfo.Covers ⟨info.qty - o.remaining, info.count - 1⟩ l := by
  rw [LevelInfo.Covers, total_cons] at h
  exact ⟨by linarith [h.1], by linarith [h.2]⟩

/-- What covers a sum that is a double still covers it when it is rounded. -/
lemma round (h : info.Covers l) (hexact : roundDouble (total l).qty = (total l).qty) :
    LevelInfo.Covers ⟨roundDouble info.qty, info.count⟩ l := by
  refine ⟨?_, h.2⟩
  rw [← hexact]
  exact roundDouble_mono h.1

lemma of_append {old : List Order} (h : info.Covers (old ++ l)) : info.Covers l := by
  obtain ⟨hqty, hcount⟩ := total_nonneg old
  have hsplit : (total (old ++ l)).qty = (total old).qty + (total l).qty ∧
      (total (old ++ l)).count = (total old).count + (total l).count := by simp [total]
  rw [LevelInfo.Covers, hsplit.1, hsplit.2] at h
  exact ⟨by linarith [h.1], by linarith [h.2]⟩

/-- A level without a quantity or a count covers no order that carries shares. -/
lemma eq_nil (h : info.Covers l) (hpos : ∀ o ∈ l, 0 < o.remaining)
    (hempty : info.count ≤ 0 ∨ info.qty ≤ 0) : l = [] := by
  cases l with
  | nil => rfl
  | cons o l =>
    rw [LevelInfo.Covers, total_cons] at h
    have ho : (0 : ℚ) < o.remaining := by exact_mod_cast hpos o List.mem_cons_self
    obtain ⟨hl, hl'⟩ := total_nonneg l
    rcases hempty with hzero | hzero
    · linarith [h.2]
    · linarith [h.1]

end LevelInfo.Covers

/-! ## The invariant -/

/-- Live orders have shares, and the levels cover them. -/
structure Covered (r : ITCHReplay) : Prop where
  remaining_pos : ∀ o ∈ r.live, 0 < o.remaining
  covers : ∀ stock side price,
    ((r.level stock side price).getD {}).Covers (restingAt stock side price r.live)

/-- If the operation returns and the new sums are doubles, the levels still cover the live orders. -/
def LeavesCovered (op : Except Exn ITCHReplay) : Prop :=
  ∀ r', op = .ok r' → r'.ExactSums → Covered r'

namespace Covered

variable {r r' : ITCHReplay}

lemma empty (f : Bytes) : Covered { filter := f } where
  remaining_pos := by simp [live]
  covers := by
    intro stock side price
    cases side <;>
      simp [level, sides, BookSides.find, live, restingAt, total, LevelInfo.Covers]

/-- Counters play no part. -/
lemma congr (h : Covered r) (horders : r'.orders = r.orders) (hl2 : r'.l2 = r.l2) : Covered r' := by
  have hlive : r'.live = r.live := by rw [live, live, horders]
  have hlevel := level_congr hl2
  exact ⟨by rw [hlive]; exact h.remaining_pos, by rw [hlive, hlevel]; exact h.covers⟩

/-- The orders that stay are covered. -/
lemma covers_rest (h : Covered r) {old rest : List Order} (hold : r.live.Perm (old ++ rest))
    (stock : Bytes) (side : Side) (price : ℚ) :
    ((r.level stock side price).getD {}).Covers (restingAt stock side price rest) := by
  have hperm := hold.filter fun o => decide (o.RestsAt stock side price)
  rw [List.filter_append] at hperm
  exact ((h.covers stock side price).congr hperm).of_append

/-- One event, after the orders `old` were replaced by the orders `new`, which rest at its
location. -/
lemma of_reports {ev : L2Event} (h : Covered r) (old new rest : List Order)
    (hrep : Reports r r' ev) (hold : r.live.Perm (old ++ rest))
    (hnew : r'.live.Perm (new ++ rest)) (hpos : ∀ o ∈ new, 0 < o.remaining)
    (hloc : ∀ o ∈ new, o.RestsAt ev.stock ev.side ev.price)
    (hev : ((eventLevel ev).getD {}).Covers
      (new ++ restingAt ev.stock ev.side ev.price rest)) : Covered r' where
  remaining_pos := by
    intro o ho
    rcases List.mem_append.mp (hnew.mem_iff.mp ho) with ho | ho
    · exact hpos o ho
    · exact h.remaining_pos o (hold.mem_iff.mpr (List.mem_append_right old ho))
  covers := by
    intro stock side price
    rw [hrep.level_eq, applyEvent]
    split
    · rename_i hat
      obtain ⟨rfl, rfl, rfl⟩ := hat
      exact hev.congr (restingAt_here hnew hloc).symm
    · -- elsewhere no order of `new` rests
      rename_i hat
      exact (h.covers_rest hold stock side price).congr (restingAt_elsewhere hnew hloc hat).symm

/-- The level of a live order covers it and the others at its location. -/
lemma covers_lookup (h : Covered r) {refNum : ℕ} {o : Order}
    (ho : r.orders.lookup refNum = some o) :
    ((r.level o.stock o.bookSide o.price).getD {}).Covers
      (o :: restingAt o.stock o.bookSide o.price (values (r.orders.erase refNum))) :=
  (h.covers o.stock o.bookSide o.price).congr (restingAt_live ho)

lemma rest_pos (h : Covered r) {refNum : ℕ} {o : Order} (ho : r.orders.lookup refNum = some o)
    {stock : Bytes} {side : Side} {price : ℚ} :
    ∀ o' ∈ restingAt stock side price (values (r.orders.erase refNum)), 0 < o'.remaining := by
  intro o' ho'
  have hmem := List.mem_cons_of_mem o (List.mem_of_mem_filter ho')
  exact h.remaining_pos o' ((values_perm_erase ho).mem_iff.mpr hmem)

/-- If a removal empties a level, the order was alone there. -/
lemma keepsLevel (h : Covered r) (hanchored : Anchored r) {refNum : ℕ} {o : Order}
    (ho : r.orders.lookup refNum = some o) : r.KeepsLevel o := by
  intro info hinfo hempty k o' hk hat
  have hcovers := h.covers_lookup ho
  rw [hinfo] at hcovers
  have hnil := hcovers.of_cons.eq_nil (h.rest_pos ho)
    (hempty.imp (fun hcount => by simpa using hcount) fun hqty => sub_nonpos.mpr hqty)
  rw [(hanchored.kept _ _ ho).refNum_eq]
  by_contra hne
  have hmem : o' ∈ restingAt o.stock o.bookSide o.price (values (r.orders.erase refNum)) := by
    refine List.mem_filter.mpr ⟨mem_values.mpr ⟨k, ?_⟩, decide_eq_true hat⟩
    rw [AList.lookup_erase_ne hne, hk]
  rw [hnil] at hmem
  exact absurd hmem List.not_mem_nil

/-! ## Operations -/

lemma addOrder (h : Covered r) {o : Order} (hpos : 0 < o.remaining) (ts : ℕ) :
    LeavesCovered (r.addOrder o ts) := by
  intro r' hr hexact
  cases hskip : r.skips o.stock with
  | true =>
    rw [ITCHReplay.addOrder, hskip, if_pos rfl] at hr
    cases hr
    exact h
  | false =>
    obtain ⟨r'', hr'', horders, hrep⟩ := addOrder_spec hskip ts
    obtain rfl : r'' = r' := Except.ok.inj (hr''.symm.trans hr)
    obtain ⟨old, hold⟩ : ∃ old, r.live.Perm (old ++ values (r.orders.erase o.refNum)) := by
      cases hlive : r.orders.lookup o.refNum with
      | none => exact ⟨[], by rw [erase_of_not_mem (AList.lookup_eq_none.mp hlive)]; rfl⟩
      | some o' => exact ⟨[o'], values_perm_erase hlive⟩
    have hnew : r''.live.Perm ([o] ++ values (r.orders.erase o.refNum)) := by
      rw [live, horders, values_insert]
      exact List.Perm.refl _
    have hat : ∀ o' ∈ [o], o'.RestsAt o.stock o.bookSide o.price := by simp [Order.RestsAt]
    have hsum := hexact.total_qty hnew hat
    rw [List.singleton_append] at hsum
    have hcovers := ((h.covers_rest hold o.stock o.bookSide o.price).cons o).round hsum
    dsimp only at hcovers
    exact h.of_reports old [o] (values (r.orders.erase o.refNum)) hrep hold hnew
      (by simpa using hpos) hat hcovers

lemma removeOrder (h : Covered r) (hanchored : Anchored r) (refNum ts : ℕ) :
    LeavesCovered (r.removeOrder refNum ts) := by
  intro r' hr hexact
  cases ho : r.orders.lookup refNum with
  | none =>
    rw [ITCHReplay.removeOrder, ho] at hr
    cases hr
    exact h
  | some o =>
    obtain ⟨info, hinfo⟩ := Option.isSome_iff_exists.mp (hanchored.level_isSome _ _ ho)
    obtain ⟨r'', hr'', horders, hrep⟩ :=
      removeOrder_spec (hanchored.kept _ _ ho).skips_eq ts ho hinfo
    obtain rfl : r'' = r' := Except.ok.inj (hr''.symm.trans hr)
    have hcovers := h.covers_lookup ho
    rw [hinfo] at hcovers
    have hlive : r''.live.Perm ([] ++ values (r.orders.erase refNum)) := by
      rw [live, horders]
      exact List.Perm.refl _
    have hrest := hcovers.of_cons.round (by simpa using hexact.total_qty hlive (by simp))
    split at hrep
    · -- the level is erased, and no order is left there
      rename_i hempty
      have hnone : LevelInfo.Covers {}
          (restingAt o.stock o.bookSide o.price (values (r.orders.erase refNum))) := by
        rw [hrest.eq_nil (h.rest_pos ho) hempty]
        exact ⟨le_rfl, le_rfl⟩
      exact h.of_reports [o] [] _ hrep (values_perm_erase ho) hlive (by simp) (by simp) hnone
    · exact h.of_reports [o] [] _ hrep (values_perm_erase ho) hlive (by simp) (by simp) hrest

lemma reduceOrder (h : Covered r) (hanchored : Anchored r) (refNum byShares ts : ℕ) :
    LeavesCovered (r.reduceOrder refNum byShares ts) := by
  intro r' hr hexact
  cases ho : r.orders.lookup refNum with
  | none =>
    rw [ITCHReplay.reduceOrder, ho] at hr
    cases hr
    exact h
  | some o =>
    have hskip := (hanchored.kept _ _ ho).skips_eq
    rcases Nat.lt_or_ge byShares o.remaining with hby | hby
    · obtain ⟨r'', hr'', horders, hrep⟩ := reduceOrder_spec hskip ts ho hby
      obtain rfl : r'' = r' := Except.ok.inj (hr''.symm.trans hr)
      set reduced : Order := { o with remaining := o.remaining - byShares } with hreduced
      have hnew : r''.live.Perm ([reduced] ++ values (r.orders.erase refNum)) := by
        rw [live, horders, values_insert]
        exact List.Perm.refl _
      have hat : ∀ o' ∈ [reduced], o'.RestsAt o.stock o.bookSide o.price := by
        simp [Order.RestsAt, Order.bookSide, reduced]
      have hsum := hexact.total_qty hnew hat
      rw [List.singleton_append] at hsum
      have hcovers := ((h.covers_lookup ho).of_cons.cons reduced).round hsum
      have hqty : (reduced.remaining : ℚ) = o.remaining - byShares := by
        rw [hreduced, Nat.cast_sub hby.le]
      simp only [hqty, sub_add_sub_cancel, sub_add_cancel] at hcovers
      exact h.of_reports [o] [reduced] _ hrep (values_perm_erase ho) hnew
        (by simpa [reduced] using hby) hat hcovers
    · rw [reduceOrder_eq_removeOrder hskip ts ho hby] at hr
      exact h.removeOrder hanchored refNum ts r' hr hexact

end Covered

/-! ## Runs -/

/-- An add carries at least one share. -/
def Message.HasShares : Message → Prop
  | .addOrder _ _ shares _ _ => 0 < shares
  | _ => True

section

variable {r : ITCHReplay}

lemma LeavesCovered.count {op : Except Exn ITCHReplay} (h : LeavesCovered op)
    {count : ITCHReplay → ITCHReplay}
    (hcount : ∀ r, (count r).orders = r.orders ∧ (count r).l2 = r.l2) :
    LeavesCovered (do let r ← op; return count r) := by
  intro r' hr hexact
  cases op with
  | error e => cases hr
  | ok r'' =>
    obtain ⟨horders, hl2⟩ := hcount r''
    cases hr
    have hlive : (count r'').live = r''.live := by rw [live, live, horders]
    rw [ExactSums, hlive] at hexact
    exact (h r'' rfl hexact).congr horders hl2

lemma Covered.apply (h : Covered r) (hanchored : Anchored r) {m : Message} (hm : m.HasShares)
    (ts : ℕ) : LeavesCovered (m.apply ts r) := by
  cases m with
  | addOrder refNum side shares stock priceRaw =>
    have hpos : 0 < (Message.order refNum side shares stock priceRaw).remaining := hm
    exact h.addOrder hpos ts
  | orderExecuted refNum byShares =>
    exact (h.reduceOrder hanchored refNum byShares ts).count fun _ => ⟨rfl, rfl⟩
  | orderCancel refNum byShares =>
    exact (h.reduceOrder hanchored refNum byShares ts).count fun _ => ⟨rfl, rfl⟩
  | orderDelete refNum => exact (h.removeOrder hanchored refNum ts).count fun _ => ⟨rfl, rfl⟩
  | orderReplace oldRefNum =>
    exact (h.removeOrder hanchored oldRefNum ts).count fun _ => ⟨rfl, rfl⟩

/-- No message takes the level of an order away. -/
lemma Covered.keepsLevels (h : Covered r) (hanchored : Anchored r) (buf : Bytes) :
    r.KeepsLevels buf := by
  intro m _ o ho
  have hlive : ∃ refNum, r.orders.lookup refNum = some o := by
    cases m with
    | addOrder => cases ho
    | orderExecuted refNum => exact ⟨refNum, (Option.filter_eq_some_iff.mp ho).1⟩
    | orderCancel refNum => exact ⟨refNum, (Option.filter_eq_some_iff.mp ho).1⟩
    | orderDelete refNum => exact ⟨refNum, ho⟩
    | orderReplace oldRefNum => exact ⟨oldRefNum, ho⟩
  obtain ⟨refNum, hrefNum⟩ := hlive
  exact h.keepsLevel hanchored hrefNum

/-- One message. -/
lemma Covered.processMessage (h : Covered r) (hanchored : Anchored r) {buf : Bytes}
    (hshares : ∀ m, decode buf = some m → m.HasShares) :
    ∃ r' b, r.processMessage buf = .ok (r', b) ∧ Anchored r' ∧ (r'.ExactSums → Covered r') := by
  obtain ⟨r', b, hr', hkeep, -⟩ := hanchored.processMessage buf
  refine ⟨r', b, hr', hkeep (h.keepsLevels hanchored buf), fun hexact => ?_⟩
  rw [processMessage_eq] at hr'
  cases hm : decode buf with
  | none =>
    rw [hm] at hr'
    cases hr'
    exact h
  | some m =>
    rw [hm] at hr'
    cases hop : m.apply (timestamp buf) r with
    | error e =>
      simp only [hop] at hr'
      cases hr'
    | ok r'' =>
      simp only [hop] at hr'
      cases hr'
      exact h.apply hanchored (hshares m hm) _ _ hop hexact

end

/-- **Feeds with shares.**  From a fresh replay with any symbol filter, no call throws at any point
of a run whose adds all carry shares and whose sums of shares are doubles, whatever reference
numbers the adds use and whatever message comes there. -/
theorem shares_find_levels (f : Bytes) (msgs : List Bytes)
    (hshares : ∀ buf ∈ msgs, ∀ m, decode buf = some m → m.HasShares) (n : ℕ)
    (hn : n ≤ msgs.length)
    (hexact : ∀ k ≤ n, ∀ r ∈ (processMessages { filter := f } (msgs.take k)).toOption,
      r.ExactSums) :
    ∃ r, processMessages { filter := f } (msgs.take n) = .ok r ∧ r.FindsLevels := by
  have hrun : ∃ r, processMessages { filter := f } (msgs.take n) = .ok r ∧ Anchored r ∧
      Covered r := by
    induction n with
    | zero => exact ⟨{ filter := f }, rfl, Anchored.empty f, Covered.empty f⟩
    | succ n ih =>
      obtain ⟨r, hr, hanchored, hcovered⟩ := ih (by omega) fun k hk => hexact k (by omega)
      have hmem : msgs.getD n [] ∈ msgs := by
        rw [List.getD_eq_getElem _ _ hn]
        exact List.getElem_mem hn
      obtain ⟨r', b, hr', hanchored', hcovered'⟩ :=
        hcovered.processMessage hanchored (hshares _ hmem)
      have hsucc : processMessages { filter := f } (msgs.take (n + 1)) = .ok r' := by
        rw [processMessages_take_succ hn, hr]
        show Prod.fst <$> r.processMessage (msgs.getD n []) = _
        rw [hr']
        rfl
      exact ⟨r', hsucc, hanchored', hcovered' (hexact (n + 1) le_rfl r' (by rw [hsucc]; rfl))⟩
  obtain ⟨r, hr, hanchored, -⟩ := hrun
  exact ⟨r, hr, hanchored.findsLevels⟩

end TickPlant.ITCHReplay
