/-
# The symbol filter

With `set_symbol_filter` the replay keeps only the orders of one stock.  The filter is tested in
three places, when an order is added, reduced and removed, and since the orders of other stocks
are never stored, the order maps of a filtered and an unfiltered run differ.

The two runs are compared message by message.  `Filtered` says how they stay related: the
filtered run has exactly the orders of its stock, the same levels of that stock, and the events
of that stock.  A message about an order of the stock does the same on both sides; a message
about any other order finds nothing in the filtered run.  So the filtered run returns whenever the
unfiltered one does.
-/
import TickPlant.Itch.Feed

namespace TickPlant.ITCHReplay

/-! ## Order maps -/

/-- `mf` holds exactly the orders of `m` for the stock `f`. -/
def OrdersOf (f : Bytes) (m mf : AList fun _ : ℕ => Order) : Prop :=
  ∀ refNum, mf.lookup refNum = (m.lookup refNum).filter fun o => o.stock = f

namespace OrdersOf

variable {f : Bytes} {m mf : AList fun _ : ℕ => Order} {refNum : ℕ} {o : Order}

lemma lookup_own (h : OrdersOf f m mf) (ho : m.lookup refNum = some o) (hf : o.stock = f) :
    mf.lookup refNum = some o := by
  simp [h refNum, ho, hf]

lemma lookup_other (h : OrdersOf f m mf) (ho : m.lookup refNum = some o) (hf : o.stock ≠ f) :
    mf.lookup refNum = none := by
  simp [h refNum, ho, hf]

lemma lookup_none (h : OrdersOf f m mf) (ho : m.lookup refNum = none) :
    mf.lookup refNum = none := by
  simp [h refNum, ho]

lemma insert_own (h : OrdersOf f m mf) (hf : o.stock = f) :
    OrdersOf f (m.insert refNum o) (mf.insert refNum o) := by
  intro k
  by_cases hk : k = refNum
  · subst hk
    rw [AList.lookup_insert, AList.lookup_insert]
    exact (Option.filter_some_pos (by simpa using hf)).symm
  · rw [AList.lookup_insert_ne hk, AList.lookup_insert_ne hk, h k]

lemma insert_other (h : OrdersOf f m mf) (hnone : mf.lookup refNum = none) (hf : o.stock ≠ f) :
    OrdersOf f (m.insert refNum o) mf := by
  intro k
  by_cases hk : k = refNum
  · subst hk
    rw [AList.lookup_insert, hnone]
    exact (Option.filter_some_neg (by simpa using hf)).symm
  · rw [AList.lookup_insert_ne hk, h k]

lemma erase_own (h : OrdersOf f m mf) : OrdersOf f (m.erase refNum) (mf.erase refNum) := by
  intro k
  by_cases hk : k = refNum
  · subst hk
    simp [AList.lookup_erase]
  · rw [AList.lookup_erase_ne hk, AList.lookup_erase_ne hk, h k]

lemma erase_other (h : OrdersOf f m mf) (hnone : mf.lookup refNum = none) :
    OrdersOf f (m.erase refNum) mf := by
  intro k
  by_cases hk : k = refNum
  · subst hk
    simp [AList.lookup_erase, hnone]
  · rw [AList.lookup_erase_ne hk, h k]

end OrdersOf

/-! ## The relation between the two runs -/

/-- The filtered replay `rf` is the part of `r` for the stock `f`. -/
structure Filtered (f : Bytes) (r rf : ITCHReplay) : Prop where
  filter_eq : rf.filter = f
  orders_of : OrdersOf f r.orders rf.orders
  level_eq : rf.level f = r.level f
  emitted_eq : rf.emitted = r.emitted.filter fun ev => ev.stock = f

/-- If the unfiltered operation returns, so does the filtered one, with a related result. -/
def Related (f : Bytes) (op opf : Except Exn ITCHReplay) : Prop :=
  ∀ r, op = .ok r → ∃ rf, opf = .ok rf ∧ Filtered f r rf

namespace Filtered

variable {f : Bytes} {r r' rf rf' : ITCHReplay} {ev : L2Event}

/-- Counters play no part. -/
lemma congr (h : Filtered f r rf) (horders : r'.orders = r.orders) (hl2 : r'.l2 = r.l2)
    (hemitted : r'.emitted = r.emitted) (hfilter' : rf'.filter = rf.filter)
    (horders' : rf'.orders = rf.orders) (hl2' : rf'.l2 = rf.l2)
    (hemitted' : rf'.emitted = rf.emitted) : Filtered f r' rf' := by
  have hlevel := level_congr hl2
  have hlevel' := level_congr hl2'
  exact ⟨hfilter'.trans h.filter_eq, by rw [horders, horders']; exact h.orders_of,
    by rw [hlevel, hlevel']; exact h.level_eq, by rw [hemitted, hemitted']; exact h.emitted_eq⟩

/-- An event of the stock, reported by both runs. -/
lemma of_own (h : Filtered f r rf) (hr : Reports r r' ev) (hrf : Reports rf rf' ev)
    (hev : ev.stock = f) (horders : OrdersOf f r'.orders rf'.orders) : Filtered f r' rf' where
  filter_eq := hrf.filter_eq.trans h.filter_eq
  orders_of := horders
  level_eq := by
    ext side price : 2
    rw [hr.level_eq, hrf.level_eq, applyEvent, applyEvent, h.level_eq]
  emitted_eq := by
    rw [hrf.emitted_eq, hr.emitted_eq, h.emitted_eq, List.filter_append]
    simp [hev]

/-- An event of another stock, reported by the unfiltered run only. -/
lemma of_other (h : Filtered f r rf) (hr : Reports r r' ev) (hev : ev.stock ≠ f)
    (horders : OrdersOf f r'.orders rf.orders) : Filtered f r' rf where
  filter_eq := h.filter_eq
  orders_of := horders
  level_eq := by
    ext side price : 2
    rw [hr.level_eq, applyEvent, if_neg fun hat => hev hat.1, h.level_eq]
  emitted_eq := by
    rw [hr.emitted_eq, h.emitted_eq, List.filter_append]
    simp [hev]

/-- The levels of the stock are the same on both sides. -/
lemma level_own (h : Filtered f r rf) {stock : Bytes} (hstock : stock = f) :
    rf.level stock = r.level stock := by
  subst hstock
  exact h.level_eq

lemma skips_own (h : Filtered f r rf) {stock : Bytes} (hstock : stock = f) :
    rf.skips stock = false := by
  simp [skips, h.filter_eq, hstock]

lemma skips_other (h : Filtered f r rf) (hf : f ≠ []) {stock : Bytes} (hstock : stock ≠ f) :
    rf.skips stock = true := by
  simp [skips, h.filter_eq, hf, hstock]

/-- Two operations that return related results. -/
lemma related {op opf : Except Exn ITCHReplay} (h : Filtered f r rf) (hop : op = .ok r)
    (hopf : opf = .ok rf) : Related f op opf := by
  rintro _ hr
  obtain rfl := Except.ok.inj (hop.symm.trans hr)
  exact ⟨rf, hopf, h⟩

/-! ## The operations -/

lemma addOrder (h : Filtered f r rf) (hf : f ≠ []) (hfollowed : Followed r) {o : Order} (ts : ℕ)
    (hfresh : o.refNum ∉ r.orders) : Related f (r.addOrder o ts) (rf.addOrder o ts) := by
  obtain ⟨r', hr', horders, hrep⟩ := addOrder_spec (skips_eq_false hfollowed.filter_eq o.stock) ts
  by_cases hstock : o.stock = f
  · obtain ⟨rf', hrf', horders', hrep'⟩ := addOrder_spec (h.skips_own hstock) ts
    -- the level that the add finds is the same on both sides
    rw [h.level_own hstock] at hrep'
    refine (h.of_own hrep hrep' hstock ?_).related hr' hrf'
    rw [horders, horders']
    exact h.orders_of.insert_own hstock
  · have hskip : rf.addOrder o ts = .ok rf := by
      rw [ITCHReplay.addOrder, if_pos (h.skips_other hf hstock)]
    refine (h.of_other hrep hstock ?_).related hr' hskip
    have hnone := h.orders_of.lookup_none (AList.lookup_eq_none.mpr hfresh)
    rw [horders]
    exact h.orders_of.insert_other hnone hstock

lemma removeOrder (h : Filtered f r rf) (hfollowed : Followed r) (refNum ts : ℕ) :
    Related f (r.removeOrder refNum ts) (rf.removeOrder refNum ts) := by
  cases ho : r.orders.lookup refNum with
  | none =>
    have hnone := h.orders_of.lookup_none ho
    exact h.related (by rw [ITCHReplay.removeOrder, ho]) (by rw [ITCHReplay.removeOrder, hnone])
  | some o =>
    have hskip := skips_eq_false hfollowed.filter_eq o.stock
    cases hlevel : r.level o.stock o.bookSide o.price with
    | none =>
      rw [removeOrder_of_level_eq_none hskip ts ho hlevel]
      rintro _ ⟨⟩
    | some info =>
      obtain ⟨r', hr', horders, hrep⟩ := removeOrder_spec hskip ts ho hlevel
      have hev : ∀ (p : Prop) [Decidable p] (info : LevelInfo),
          (if p then o.event .delete {} ts else o.event .set info ts).stock = o.stock := by
        intro p _ info
        split <;> rfl
      by_cases hstock : o.stock = f
      · obtain ⟨rf', hrf', horders', hrep'⟩ := removeOrder_spec (h.skips_own hstock) ts
          (h.orders_of.lookup_own ho hstock) (by rw [h.level_own hstock]; exact hlevel)
        refine (h.of_own hrep hrep' ((hev _ _).trans hstock) ?_).related hr' hrf'
        rw [horders, horders']
        exact h.orders_of.erase_own
      · have hnone := h.orders_of.lookup_other ho hstock
        refine Filtered.related (h.of_other hrep (by rw [hev]; exact hstock) ?_) hr'
          (by rw [ITCHReplay.removeOrder, hnone])
        rw [horders]
        exact h.orders_of.erase_other hnone

lemma reduceOrder (h : Filtered f r rf) (hfollowed : Followed r) (refNum byShares ts : ℕ) :
    Related f (r.reduceOrder refNum byShares ts) (rf.reduceOrder refNum byShares ts) := by
  cases ho : r.orders.lookup refNum with
  | none =>
    have hnone := h.orders_of.lookup_none ho
    exact h.related (by rw [ITCHReplay.reduceOrder, ho]) (by rw [ITCHReplay.reduceOrder, hnone])
  | some o =>
    have hskip := skips_eq_false hfollowed.filter_eq o.stock
    by_cases hstock : o.stock = f
    · have ho' := h.orders_of.lookup_own ho hstock
      have hskip' := h.skips_own hstock
      rcases Nat.lt_or_ge byShares o.remaining with hby | hby
      · obtain ⟨r', hr', horders, hrep⟩ := reduceOrder_spec hskip ts ho hby
        obtain ⟨rf', hrf', horders', hrep'⟩ := reduceOrder_spec hskip' ts ho' hby
        rw [h.level_own hstock] at hrep'
        refine (h.of_own hrep hrep' hstock ?_).related hr' hrf'
        rw [horders, horders']
        exact h.orders_of.insert_own hstock
      · rw [reduceOrder_eq_removeOrder hskip ts ho hby,
          reduceOrder_eq_removeOrder hskip' ts ho' hby]
        exact h.removeOrder hfollowed refNum ts
    · have hnone := h.orders_of.lookup_other ho hstock
      have hsame : rf.reduceOrder refNum byShares ts = rf.removeOrder refNum ts := by
        rw [ITCHReplay.reduceOrder, ITCHReplay.removeOrder, hnone]
      rcases Nat.lt_or_ge byShares o.remaining with hby | hby
      · obtain ⟨r', hr', horders, hrep⟩ := reduceOrder_spec hskip ts ho hby
        refine (h.of_other hrep hstock ?_).related hr' (by rw [ITCHReplay.reduceOrder, hnone])
        rw [horders]
        exact h.orders_of.insert_other hnone hstock
      · rw [reduceOrder_eq_removeOrder hskip ts ho hby, hsame]
        exact h.removeOrder hfollowed refNum ts

/-! ## Messages -/

/-- A handler that ignores a short message, and counts the message after an operation on the
orders. -/
lemma handler (h : Filtered f r rf) (p : Prop) [Decidable p] {op opf : Except Exn ITCHReplay}
    {count : ITCHReplay → ITCHReplay} (hop : Related f op opf)
    (hcount : ∀ r rf, Filtered f r rf → Filtered f (count r) (count rf)) :
    Related f (if p then .ok r else do let r' ← op; return count r')
      (if p then .ok rf else do let r' ← opf; return count r') := by
  split
  · exact h.related rfl rfl
  · intro r' hr'
    cases op with
    | error e => cases hr'
    | ok r'' =>
      cases hr'
      obtain ⟨rf', rfl, h'⟩ := hop r'' rfl
      exact ⟨count rf', rfl, hcount r'' rf' h'⟩

lemma processMessage (h : Filtered f r rf) (hf : f ≠ []) (hfollowed : Followed r) {buf : Bytes}
    (hclean : r.CleanAdd buf) :
    Related f (Prod.fst <$> r.processMessage buf) (Prod.fst <$> rf.processMessage buf) := by
  cases buf with
  | nil => exact h.related rfl rfl
  | cons type buf =>
    have hok : ∀ {op opf : Except Exn ITCHReplay}, Related f op opf →
        Related f (Prod.fst <$> (do return (← op, true)))
          (Prod.fst <$> (do return (← opf, true))) := by
      intro op opf hop
      rwa [fst_map_return, fst_map_return]
    rw [ITCHReplay.processMessage, ITCHReplay.processMessage]
    generalize (if 11 ≤ (type :: buf).length then ru48 ((type :: buf).drop 5) else 0) = ts
    cases hkind : kindOf type with
    | none => exact h.related rfl rfl
    | some kind =>
      cases kind with
      | addOrder =>
        refine hok ?_
        rw [handleAddOrder, handleAddOrder]
        split
        · exact h.related rfl rfl
        · rename_i hlen
          exact h.addOrder hf hfollowed ts (hclean (by simpa using hkind) (not_lt.mp hlen)).2
      | executed =>
        exact hok (h.handler _ (h.reduceOrder hfollowed _ _ ts) fun _ _ h' =>
          h'.congr rfl rfl rfl rfl rfl rfl rfl)
      | cancel =>
        exact hok (h.handler _ (h.reduceOrder hfollowed _ _ ts) fun _ _ h' =>
          h'.congr rfl rfl rfl rfl rfl rfl rfl)
      | delete =>
        exact hok (h.handler _ (h.removeOrder hfollowed _ ts) fun _ _ h' =>
          h'.congr rfl rfl rfl rfl rfl rfl rfl)
      | replace =>
        exact hok (h.handler _ (h.removeOrder hfollowed _ ts) fun _ _ h' =>
          h'.congr rfl rfl rfl rfl rfl rfl rfl)

end Filtered

/-- The two runs of a clean feed stay related after every message. -/
lemma filtered_processMessages {f : Bytes} (hf : f ≠ []) {msgs : List Bytes} (h : CleanFeed msgs)
    (n : ℕ) :
    Related f (processMessages {} (msgs.take n)) (processMessages { filter := f } (msgs.take n)) := by
  induction n with
  | zero =>
    have hempty : Filtered f {} { filter := f } := by
      refine ⟨rfl, ?_, rfl, rfl⟩
      intro refNum
      rfl
    exact hempty.related rfl rfl
  | succ n ih =>
    rcases Nat.lt_or_ge n msgs.length with hn | hn
    · rw [processMessages_take_succ hn, processMessages_take_succ hn]
      cases hr : processMessages {} (msgs.take n) with
      | error e => rintro _ ⟨⟩
      | ok r =>
        obtain ⟨rf, hrf, hfiltered⟩ := ih r hr
        have hclean : r.CleanAdd (msgs.getD n []) := h n hn r (by rw [hr]; rfl)
        rw [hrf]
        exact hfiltered.processMessage hf (followed_processMessages h n r hr) hclean
    · rw [List.take_of_length_le hn] at ih
      rw [List.take_of_length_le (by omega)]
      exact ih

/-- **Other stocks cannot influence a filtered replay.**  After every message of a clean feed that
the unfiltered replay has processed, a replay that was started with the filter `f` has processed
it too, it has emitted exactly the events of the unfiltered replay whose stock is `f`, in the same
order, and its `l2_[f]` is the same.  As long as the sums of the shares at the locations are
doubles, the unfiltered replay processes every message. -/
theorem filter_is_subsequence (f : Bytes) (hf : f ≠ []) (msgs : List Bytes) (h : CleanFeed msgs)
    (n : ℕ) :
    (∀ r, processMessages {} (msgs.take n) = .ok r →
      ∃ rf, processMessages { filter := f } (msgs.take n) = .ok rf ∧
        rf.emitted = r.emitted.filter (fun ev => ev.stock = f) ∧ rf.sides f = r.sides f) ∧
    (ExactSumsUpTo msgs n → ∃ r, processMessages {} (msgs.take n) = .ok r) := by
  constructor
  · intro r hr
    obtain ⟨rf, hrf, hfiltered⟩ := filtered_processMessages hf h n r hr
    refine ⟨rf, hrf, hfiltered.emitted_eq, ?_⟩
    exact BookSides.ext_find fun side price => congrFun (congrFun hfiltered.level_eq side) price
  · intro hexact
    obtain ⟨r, hr, -⟩ := aggregated_processMessages h hexact
    exact ⟨r, hr⟩

/-- The filter test: an order of another stock comes and goes between two orders of the stock. -/
theorem filter_is_subsequence_twoStocks :
    let msgs := [makeAddOrder 10 66 300 (bytes "MSFT    ") 2000000 0,
      makeAddOrder 11 66 200 (bytes "AAPL    ") 1500000 0, makeOrderDelete 11 0,
      makeAddOrder 12 66 100 (bytes "MSFT    ") 2000000 0]
    ∃ r rf, processMessages {} msgs = .ok r ∧
      processMessages { filter := bytes "MSFT" } msgs = .ok rf ∧
      rf.emitted = r.emitted.filter (fun ev => ev.stock = bytes "MSFT") ∧
      rf.sides (bytes "MSFT") = r.sides (bytes "MSFT") ∧
      r.emitted.length = 4 ∧ rf.emitted.length = 2 := by
  intro msgs
  obtain ⟨hrun, hreturns⟩ :=
    filter_is_subsequence (bytes "MSFT") (by decide) msgs (by decide +kernel) 4
  obtain ⟨r, hr⟩ := hreturns (exactSumsUpTo_of_le (by decide +kernel))
  obtain ⟨rf, hrf, hemitted, hsides⟩ := hrun r hr
  have hall : (processMessages {} msgs).toOption.map
      (fun r => (r.emitted.length, (r.emitted.filter fun ev => ev.stock = bytes "MSFT").length)) =
      some (4, 2) := by decide +kernel
  change processMessages {} msgs = .ok r at hr
  rw [hr] at hall
  obtain ⟨hlen, hfiltered⟩ := Prod.mk.inj (Option.some.inj hall)
  exact ⟨r, rf, hr, hrf, hemitted, hsides, hlen, by rw [hemitted]; exact hfiltered⟩

end TickPlant.ITCHReplay
