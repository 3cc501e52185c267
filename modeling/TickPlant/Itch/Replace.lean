/-
# Order Replace

The table of message types describes Order Replace as "delete + re-add": the old order leaves its
level and the new one, with the side and the stock of the old, enters its own.
`handle_order_replace` stops after the first half.  Here the two are compared in every state in
which the old order is live and the new reference number is not.

They can only agree where the delete does not get as far as to change a level: the order belongs
to a stock that the symbol filter no longer lets through, so that the re-add would be skipped as
well, or its level is missing and the delete throws.
-/
import TickPlant.Itch.Feed
import TickPlant.Itch.Messages

namespace TickPlant.ITCHReplay

/-- What the header documents for a replace of the live order `o`. -/
def deleteThenAdd (oldRefNum newRefNum newShares newPriceRaw : ℕ) (o : Order) (ts : ℕ)
    (r : ITCHReplay) : Except Exn ITCHReplay := do
  let r ← (Message.orderDelete oldRefNum).apply ts r
  (Message.addOrder newRefNum o.side newShares o.stock newPriceRaw).apply ts r

/-- The same orders and the same levels, and the same book behind the callback. -/
structure SameEffect (r r' : ITCHReplay) : Prop where
  orders_eq : ∀ refNum, r.orders.lookup refNum = r'.orders.lookup refNum
  level_eq : ∀ stock side price, r.level stock side price = r'.level stock side price
  book_eq : ∀ clock stock side price,
    (feedBook clock stock r.emitted (OrderBook.new [] [])).level side price =
      (feedBook clock stock r'.emitted (OrderBook.new [] [])).level side price

/-- Both calls throw, or both return with the same effect. -/
def SameOutcome : Except Exn ITCHReplay → Except Exn ITCHReplay → Prop
  | .ok r, .ok r' => SameEffect r r'
  | .error e, .error e' => e = e'
  | _, _ => False

lemma SameOutcome.lookup_eq {x y : Except Exn ITCHReplay} (h : SameOutcome x y) (refNum : ℕ) :
    x.toOption.bind (fun r => r.orders.lookup refNum) =
      y.toOption.bind fun r => r.orders.lookup refNum := by
  cases x with
  | error e =>
    cases y with
    | error e' => rfl
    | ok r' => exact h.elim
  | ok r =>
    cases y with
    | error e' => exact h.elim
    | ok r' => exact SameEffect.orders_eq h refNum

section

variable {r : ITCHReplay} {refNum : ℕ} {o : Order}

/-- The removal of an order that the filter does not let through. -/
lemma removeOrder_skipped (hskip : r.skips o.stock = true) (ts : ℕ)
    (ho : r.orders.lookup refNum = some o) :
    r.removeOrder refNum ts = .ok { r with orders := r.orders.erase refNum } := by
  rw [removeOrder, ho]
  simp only [hskip, if_true]

/-- The removal of an order from a level that is not there throws. -/
lemma removeOrder_throws (hskip : r.skips o.stock = false) (ts : ℕ)
    (ho : r.orders.lookup refNum = some o) (hnone : r.level o.stock o.bookSide o.price = none) :
    r.removeOrder refNum ts = .error .outOfRange := by
  have hat : (r.sides o.stock).at? o.bookSide o.price = .error .outOfRange := by
    rw [BookSides.at?]
    rw [level] at hnone
    rw [hnone]
  rw [removeOrder, ho]
  simp only [hskip, Bool.false_eq_true, if_false, hnone, hat]
  rfl

end

/-- **A replace is a delete.**  Processing an Order Replace message has the effect of deleting the
old order and adding the new one exactly if the filter does not let the stock of the old order
through, or its level is missing and both throw.  Otherwise the new order does not arrive. -/
theorem replace_sameOutcome_iff (r : ITCHReplay) (buf : Bytes)
    (oldRefNum newRefNum newShares newPriceRaw : ℕ) (o : Order)
    (hbuf : decode buf = some (.orderReplace oldRefNum newRefNum newShares newPriceRaw))
    (hold : r.orders.lookup oldRefNum = some o) (hnew : newRefNum ∉ r.orders) :
    SameOutcome (Prod.fst <$> r.processMessage buf)
        (deleteThenAdd oldRefNum newRefNum newShares newPriceRaw o (timestamp buf) r) ↔
      r.skips o.stock = true ∨ r.level o.stock o.bookSide o.price = none := by
  have hreplace : Prod.fst <$> r.processMessage buf = (do
      let r ← r.removeOrder oldRefNum (timestamp buf)
      return { r with replaceCount := r.replaceCount + 1 }) := by
    rw [processMessage_eq, hbuf]
    simp only [Message.apply]
    cases r.removeOrder oldRefNum (timestamp buf) <;> rfl
  have hadd : deleteThenAdd oldRefNum newRefNum newShares newPriceRaw o (timestamp buf) r = (do
      let r ← r.removeOrder oldRefNum (timestamp buf)
      ITCHReplay.addOrder (Message.order newRefNum o.side newShares o.stock newPriceRaw)
        (timestamp buf) { r with deleteCount := r.deleteCount + 1 }) := by
    simp only [deleteThenAdd, Message.apply]
    cases r.removeOrder oldRefNum (timestamp buf) <;> rfl
  rw [hreplace, hadd]
  cases hskip : r.skips o.stock with
  | true =>
    -- both only forget the old order
    refine iff_of_true ?_ (Or.inl rfl)
    rw [removeOrder_skipped hskip _ hold]
    show SameOutcome (.ok _) (if r.skips o.stock = true then _ else _)
    rw [hskip]
    exact ⟨fun _ => rfl, fun _ _ _ => rfl, fun _ _ _ _ => rfl⟩
  | false =>
    cases hlevel : r.level o.stock o.bookSide o.price with
    | none =>
      refine iff_of_true ?_ (Or.inr rfl)
      rw [removeOrder_throws hskip _ hold hlevel]
      exact rfl
    | some info =>
      refine iff_of_false ?_ (by simp)
      obtain ⟨r', hr', horders, hrep⟩ := removeOrder_spec hskip (timestamp buf) hold hlevel
      have hskip' : ITCHReplay.skips { r' with deleteCount := r'.deleteCount + 1 } o.stock =
          false := by
        rw [← hskip]
        simp only [skips, hrep.filter_eq]
      obtain ⟨r'', hr'', horders', -⟩ := addOrder_spec
        (o := Message.order newRefNum o.side newShares o.stock newPriceRaw) hskip' (timestamp buf)
      rw [hr']
      show ¬ SameOutcome (.ok _) (ITCHReplay.addOrder _ _ _)
      rw [hr'']
      intro hsame
      -- the new order is live on one side only
      have hlookup : r'.orders.lookup newRefNum = r''.orders.lookup newRefNum :=
        hsame.lookup_eq newRefNum
      have hleft : r'.orders.lookup newRefNum = none := by
        rw [horders]
        by_cases hk : newRefNum = oldRefNum
        · rw [hk, AList.lookup_erase]
        · rw [AList.lookup_erase_ne hk]
          exact AList.lookup_eq_none.mpr hnew
      have hright : r''.orders.lookup newRefNum =
          some (Message.order newRefNum o.side newShares o.stock newPriceRaw) := by
        rw [horders']
        exact AList.lookup_insert _
      rw [hright] at hlookup
      exact absurd (hleft.symm.trans hlookup) (by simp)

/-- A bid of 100 shares of AAPL at 100 dollars. -/
def aaplBid : Order := ⟨1, 66, 100, 100, bytes "AAPL"⟩

/-- The state after that bid was added. -/
def withAaplBid : ITCHReplay where
  orders := AList.insert 1 aaplBid ∅
  l2 := AList.insert (bytes "AAPL") (BookSides.put .bid 100 ⟨100, 1⟩ {}) ∅
  addCount := 1
  emitted := [aaplBid.event .set ⟨100, 1⟩ 0]

theorem replace_sameOutcome_iff_aapl :
    SameOutcome (Prod.fst <$> withAaplBid.processMessage (makeOrderReplace 1 2 50 1000100 0))
        (deleteThenAdd 1 2 50 1000100 aaplBid (timestamp (makeOrderReplace 1 2 50 1000100 0))
          withAaplBid) ↔
      withAaplBid.skips aaplBid.stock = true ∨
        withAaplBid.level aaplBid.stock aaplBid.bookSide aaplBid.price = none :=
  replace_sameOutcome_iff withAaplBid (makeOrderReplace 1 2 50 1000100 0) 1 2 50 1000100 aaplBid
    (decode_build (m := .orderReplace 1 2 50 1000100) (by simp [Message.Fits]) 0)
    (by decide +kernel) (by decide +kernel)

/-- One bid of AAPL, replaced by 50 shares at a higher price: nothing rests afterwards. -/
theorem replace_loses_order :
    ∃ r, processMessages {} [makeAddOrder 1 66 100 (bytes "AAPL") 1000000 0] = .ok r ∧
      r.orders.lookup 1 = some aaplBid ∧ 2 ∉ r.orders ∧
      ¬ SameOutcome (Prod.fst <$> r.processMessage (makeOrderReplace 1 2 50 1000100 0))
        (deleteThenAdd 1 2 50 1000100 aaplBid 0 r) := by
  have hrun : (processMessages {} [makeAddOrder 1 66 100 (bytes "AAPL") 1000000 0]).toOption.map
      (fun r => (r.orders.lookup 1, r.orders.lookup 2,
        (Prod.fst <$> r.processMessage (makeOrderReplace 1 2 50 1000100 0)).toOption.bind
          (fun r => r.orders.lookup 2),
        (deleteThenAdd 1 2 50 1000100 aaplBid 0 r).toOption.bind fun r => r.orders.lookup 2)) =
      some (some aaplBid, none, none, some (Message.order 2 66 50 (bytes "AAPL") 1000100)) := by
    decide +kernel
  obtain ⟨r, hr, hfacts⟩ := Option.map_eq_some_iff.mp hrun
  simp only [Prod.mk.injEq] at hfacts
  obtain ⟨hone, htwo, hreplaced, hadded⟩ := hfacts
  refine ⟨r, ?_, hone, AList.lookup_eq_none.mp htwo, ?_⟩
  · revert hr
    cases processMessages {} [makeAddOrder 1 66 100 (bytes "AAPL") 1000000 0] with
    | error e => exact fun h => absurd h (by simp [Except.toOption])
    | ok r' => exact fun h => congrArg Except.ok (Option.some.inj h)
  · intro hsame
    have hlookup := hsame.lookup_eq 2
    rw [hadded] at hlookup
    exact absurd (hreplaced.symm.trans hlookup) (by simp)

end TickPlant.ITCHReplay
