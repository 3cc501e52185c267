/-
# Lookups of levels

`handle_add_order`, `reduce_order` and `remove_order` read the level of an order with `at`, which
throws if the level is gone.  The first two write the level before they read it.  `remove_order`
guards its write (`lvl_it != sides.bids.end()`) but not the read behind it, so it throws for a live
order without a level.

A state is `Anchored` if every live order has its level.  The only step that can lose this is a
removal that erases a level on which another order rests: the test for that is that no order or no
quantity would be left, and orders without shares are no quantity.  A message does so exactly if it
fails `KeepsLevels`, and then the delete of the order left behind throws.
-/
import TickPlant.Itch.Replace

namespace TickPlant.ITCHReplay

/-! ## Orders and their levels -/

/-- A live order as `handle_add_order` stores it: under its own reference number, and of a stock
that the filter lets through. -/
structure Order.Kept (r : ITCHReplay) (refNum : ℕ) (o : Order) : Prop where
  refNum_eq : o.refNum = refNum
  refNum_lt : refNum < 2 ^ 64
  skips_eq : r.skips o.stock = false

/-- Every live order has its level. -/
structure Anchored (r : ITCHReplay) : Prop where
  kept : ∀ refNum o, r.orders.lookup refNum = some o → o.Kept r refNum
  level_isSome : ∀ refNum o, r.orders.lookup refNum = some o →
    (r.level o.stock o.bookSide o.price).isSome

/-- Some live order has lost its level. -/
def Orphaned (r : ITCHReplay) : Prop :=
  ∃ refNum < 2 ^ 64, ∃ o, r.orders.lookup refNum = some o ∧ r.skips o.stock = false ∧
    r.level o.stock o.bookSide o.price = none

/-- If the removal of `o` empties its level by the test of the code, then no other live order
rests there. -/
def KeepsLevel (r : ITCHReplay) (o : Order) : Prop :=
  ∀ info, r.level o.stock o.bookSide o.price = some info →
    info.count ≤ 1 ∨ info.qty ≤ o.remaining →
    ∀ refNum o', r.orders.lookup refNum = some o' → o'.RestsAt o.stock o.bookSide o.price →
      refNum = o.refNum

/-- The live order that a message removes: all its shares are executed or cancelled, or it is
deleted or replaced. -/
def Message.removes (r : ITCHReplay) : Message → Option Order
  | addOrder _ _ _ _ _ => none
  | orderExecuted refNum byShares => (r.orders.lookup refNum).filter fun o => o.remaining ≤ byShares
  | orderCancel refNum byShares => (r.orders.lookup refNum).filter fun o => o.remaining ≤ byShares
  | orderDelete refNum => r.orders.lookup refNum
  | orderReplace oldRefNum _ _ _ => r.orders.lookup oldRefNum

/-- No removal by the message erases a level on which another order rests. -/
def KeepsLevels (r : ITCHReplay) (buf : Bytes) : Prop :=
  ∀ m, decode buf = some m → ∀ o, m.removes r = some o → r.KeepsLevel o

/-- An operation returns, and keeps the levels of all live orders exactly if `p`. -/
def Returns (p : Prop) (op : Except Exn ITCHReplay) : Prop :=
  ∃ r', op = .ok r' ∧ (p → Anchored r') ∧ (¬ p → Orphaned r')

namespace Anchored

variable {r r' : ITCHReplay}

lemma empty (f : Bytes) : Anchored { filter := f } := ⟨by simp, by simp⟩

/-- After an event, a live order has its level if the event set it, or if it had one before and
rests elsewhere. -/
lemma of_reports {ev : L2Event} (hrep : Reports r r' ev)
    (hkept : ∀ refNum o, r'.orders.lookup refNum = some o → o.Kept r refNum)
    (hat : ∀ refNum o, r'.orders.lookup refNum = some o → o.RestsAt ev.stock ev.side ev.price →
      (eventLevel ev).isSome)
    (haway : ∀ refNum o, r'.orders.lookup refNum = some o → ¬ o.RestsAt ev.stock ev.side ev.price →
      (r.level o.stock o.bookSide o.price).isSome) : Anchored r' where
  kept := by
    intro refNum o ho
    obtain ⟨heq, hlt, hskip⟩ := hkept refNum o ho
    refine ⟨heq, hlt, ?_⟩
    rw [skips, hrep.filter_eq]
    exact hskip
  level_isSome := by
    intro refNum o ho
    rw [hrep.level_eq, applyEvent]
    split
    · rename_i h
      exact hat refNum o ho ⟨h.1.symm, h.2.1.symm, h.2.2.symm⟩
    · rename_i h
      refine haway refNum o ho ?_
      rintro ⟨h₁, h₂, h₃⟩
      exact h ⟨h₁.symm, h₂.symm, h₃.symm⟩

/-- An order is stored and its level is written. -/
lemma of_insert (h : Anchored r) {refNum : ℕ} {o : Order} {ev : L2Event} (hrep : Reports r r' ev)
    (horders : r'.orders = r.orders.insert refNum o) (hkept : o.Kept r refNum)
    (hset : (eventLevel ev).isSome) (hat : o.RestsAt ev.stock ev.side ev.price) :
    Anchored r' := by
  have hlookup : ∀ k o', r'.orders.lookup k = some o' →
      (k = refNum ∧ o' = o) ∨ r.orders.lookup k = some o' := by
    intro k o' hk
    rw [horders] at hk
    by_cases hne : k = refNum
    · rw [hne, AList.lookup_insert] at hk
      exact Or.inl ⟨hne, (Option.some.inj hk).symm⟩
    · rw [AList.lookup_insert_ne hne] at hk
      exact Or.inr hk
  refine of_reports hrep ?_ (fun _ _ _ _ => hset) ?_
  · intro k o' hk
    rcases hlookup k o' hk with ⟨rfl, rfl⟩ | hk
    · exact hkept
    · exact h.kept k o' hk
  · intro k o' hk haway
    rcases hlookup k o' hk with ⟨rfl, rfl⟩ | hk
    · exact absurd hat haway
    · exact h.level_isSome k o' hk

lemma addOrder (h : Anchored r) {o : Order} (ts : ℕ) (href : o.refNum < 2 ^ 64) :
    ∃ r', r.addOrder o ts = .ok r' ∧ Anchored r' := by
  cases hskip : r.skips o.stock with
  | true => exact ⟨r, by rw [ITCHReplay.addOrder, hskip, if_pos rfl], h⟩
  | false =>
    obtain ⟨r', hr', horders, hrep⟩ := addOrder_spec hskip ts
    exact ⟨r', hr', h.of_insert hrep horders ⟨rfl, href, hskip⟩ rfl ⟨rfl, rfl, rfl⟩⟩

/-- The removal of a live order: the other orders at its level decide. -/
lemma removeOrder (h : Anchored r) (refNum ts : ℕ) :
    Returns (∀ o, r.orders.lookup refNum = some o → r.KeepsLevel o) (r.removeOrder refNum ts) := by
  cases ho : r.orders.lookup refNum with
  | none =>
    refine ⟨r, by rw [ITCHReplay.removeOrder, ho], fun _ => h, fun hnot => absurd ?_ hnot⟩
    rintro o ⟨⟩
  | some o =>
    obtain ⟨info, hinfo⟩ := Option.isSome_iff_exists.mp (h.level_isSome _ _ ho)
    obtain ⟨r', hr', horders, hrep⟩ := removeOrder_spec (h.kept _ _ ho).skips_eq ts ho hinfo
    have hlookup : ∀ k o', r'.orders.lookup k = some o' →
        k ≠ o.refNum ∧ r.orders.lookup k = some o' := by
      intro k o' hk
      rw [horders] at hk
      rw [(h.kept _ _ ho).refNum_eq]
      by_cases hne : k = refNum
      · rw [hne, AList.lookup_erase] at hk
        cases hk
      · rw [AList.lookup_erase_ne hne] at hk
        exact ⟨hne, hk⟩
    have hkept : ∀ k o', r'.orders.lookup k = some o' → o'.Kept r k :=
      fun k o' hk => h.kept k o' (hlookup k o' hk).2
    have hlevel : ∀ k o', r'.orders.lookup k = some o' →
        (r.level o'.stock o'.bookSide o'.price).isSome :=
      fun k o' hk => h.level_isSome k o' (hlookup k o' hk).2
    -- the test of the code, without the subtractions: rounding keeps the sign
    simp only [Lib.roundDouble_nonpos_iff, sub_nonpos] at hrep
    by_cases hempty : info.count ≤ 1 ∨ info.qty ≤ o.remaining
    · rw [if_pos hempty] at hrep
      refine ⟨r', hr', ?_, ?_⟩
      · intro hkeep
        refine of_reports hrep hkept ?_ fun k o' hk _ => hlevel k o' hk
        intro k o' hk hat
        obtain ⟨hne, hk⟩ := hlookup k o' hk
        exact absurd (hkeep o rfl info hinfo hempty k o' hk hat) hne
      · intro hnot
        -- some other order rests where the event deletes the level
        obtain ⟨k, o', hk, hat, hne⟩ : ∃ k o', r.orders.lookup k = some o' ∧
            o'.RestsAt o.stock o.bookSide o.price ∧ k ≠ o.refNum := by
          by_contra hall
          refine hnot ?_
          rintro _ ⟨⟩ _ _ _ k o' hk hat
          by_contra hne
          exact hall ⟨k, o', hk, hat, hne⟩
        rw [(h.kept _ _ ho).refNum_eq] at hne
        refine ⟨k, (h.kept _ _ hk).refNum_lt, o', ?_, ?_, ?_⟩
        · rw [horders, AList.lookup_erase_ne hne, hk]
        · rw [skips, hrep.filter_eq]
          exact (h.kept _ _ hk).skips_eq
        · rw [hrep.level_eq, applyEvent, if_pos ⟨hat.1.symm, hat.2.1.symm, hat.2.2.symm⟩]
          rfl
    · rw [if_neg hempty] at hrep
      refine ⟨r', hr', fun _ => of_reports hrep hkept (fun _ _ _ _ => rfl)
        fun k o' hk _ => hlevel k o' hk, ?_⟩
      intro hnot
      refine absurd ?_ hnot
      rintro _ ⟨⟩ info' hinfo' hempty'
      rw [hinfo] at hinfo'
      cases hinfo'
      exact absurd hempty' hempty

/-- A reduction takes an order away only by removing it. -/
lemma reduceOrder (h : Anchored r) (refNum byShares ts : ℕ) :
    Returns (∀ o, (r.orders.lookup refNum).filter (fun o => o.remaining ≤ byShares) = some o →
      r.KeepsLevel o) (r.reduceOrder refNum byShares ts) := by
  cases ho : r.orders.lookup refNum with
  | none =>
    refine ⟨r, by rw [ITCHReplay.reduceOrder, ho], fun _ => h, fun hnot => absurd ?_ hnot⟩
    rintro o ⟨⟩
  | some o =>
    have hskip := (h.kept _ _ ho).skips_eq
    rcases Nat.lt_or_ge byShares o.remaining with hby | hby
    · obtain ⟨r', hr', horders, hrep⟩ := reduceOrder_spec hskip ts ho hby
      obtain ⟨heq, hlt, -⟩ := h.kept _ _ ho
      refine ⟨r', hr', fun _ => h.of_insert hrep horders ⟨heq, hlt, hskip⟩ rfl ⟨rfl, rfl, rfl⟩,
        fun hnot => absurd ?_ hnot⟩
      intro o' ho'
      rw [Option.filter_some_neg (by simpa using hby)] at ho'
      cases ho'
    · have hremove := h.removeOrder refNum ts
      rw [ho] at hremove
      rw [reduceOrder_eq_removeOrder hskip ts ho hby, Option.filter_some_pos (by simpa using hby)]
      exact hremove

end Anchored

/-! ## Messages -/

section

variable {r : ITCHReplay} {p : Prop}

/-- Counters play no part. -/
lemma Returns.count {op : Except Exn ITCHReplay} (h : Returns p op)
    {count : ITCHReplay → ITCHReplay}
    (hcount : ∀ r, (count r).filter = r.filter ∧ (count r).orders = r.orders ∧
      (count r).l2 = r.l2) : Returns p (do let r ← op; return count r) := by
  obtain ⟨r', rfl, hkeep, hlose⟩ := h
  obtain ⟨hfilter, horders, hl2⟩ := hcount r'
  have hskips : (count r').skips = r'.skips := by
    ext stock : 1
    rw [skips, skips, hfilter]
  have hlevel := level_congr hl2
  refine ⟨count r', rfl, ?_, ?_⟩
  · intro hp
    obtain ⟨hkept, hsome⟩ := hkeep hp
    refine ⟨?_, by rwa [horders, hlevel]⟩
    intro k o hk
    rw [horders] at hk
    obtain ⟨heq, hlt, hskip⟩ := hkept k o hk
    exact ⟨heq, hlt, by rwa [hskips]⟩
  · intro hp
    rw [Orphaned, horders, hskips, hlevel]
    exact hlose hp

/-- The operation of a message, from a state in which every live order has its level. -/
lemma Anchored.apply (h : Anchored r) {buf : Bytes} {m : Message} (hm : decode buf = some m)
    (ts : ℕ) : Returns (∀ o, m.removes r = some o → r.KeepsLevel o) (m.apply ts r) := by
  cases m with
  | addOrder refNum side shares stock priceRaw =>
    obtain ⟨r', hr', hanchored⟩ := h.addOrder
      (o := Message.order refNum side shares stock priceRaw) ts (refNum_lt_of_decode hm)
    refine ⟨r', hr', fun _ => hanchored, fun hnot => absurd ?_ hnot⟩
    rintro o ⟨⟩
  | orderExecuted refNum byShares =>
    exact (h.reduceOrder refNum byShares ts).count fun _ => ⟨rfl, rfl, rfl⟩
  | orderCancel refNum byShares =>
    exact (h.reduceOrder refNum byShares ts).count fun _ => ⟨rfl, rfl, rfl⟩
  | orderDelete refNum => exact (h.removeOrder refNum ts).count fun _ => ⟨rfl, rfl, rfl⟩
  | orderReplace oldRefNum => exact (h.removeOrder oldRefNum ts).count fun _ => ⟨rfl, rfl, rfl⟩

/-- One message: it does not throw, and it takes no order's level exactly if it keeps the levels. -/
lemma Anchored.processMessage (h : Anchored r) (buf : Bytes) :
    ∃ r' b, r.processMessage buf = .ok (r', b) ∧ (r.KeepsLevels buf → Anchored r') ∧
      (¬ r.KeepsLevels buf → Orphaned r') := by
  rw [processMessage_eq]
  cases hm : decode buf with
  | none =>
    refine ⟨r, _, rfl, fun _ => h, fun hnot => absurd ?_ hnot⟩
    intro m hm'
    rw [hm] at hm'
    cases hm'
  | some m =>
    have hiff : r.KeepsLevels buf ↔ ∀ o, m.removes r = some o → r.KeepsLevel o := by
      constructor
      · intro hkeep
        exact hkeep m hm
      · intro hkeep m' hm'
        rw [hm] at hm'
        cases hm'
        exact hkeep
    obtain ⟨r', hr', hkeep, hlose⟩ := h.apply hm (timestamp buf)
    rw [← hiff] at hkeep hlose
    refine ⟨r', true, ?_, hkeep, hlose⟩
    simp only [hr']
    rfl

end

/-! ## Runs -/

/-- Whatever message comes next, the call returns. -/
def FindsLevels (r : ITCHReplay) : Prop := ∀ buf, ∃ result, r.processMessage buf = .ok result

lemma Anchored.findsLevels {r : ITCHReplay} (h : Anchored r) : FindsLevels r := by
  intro buf
  obtain ⟨r', b, hr', -, -⟩ := h.processMessage buf
  exact ⟨(r', b), hr'⟩

end TickPlant.ITCHReplay
