/-
# Messages as operations

A message that a handler accepts is an operation on the orders with the fields of the message as
its arguments.  `decode` is what the handlers read from a buffer and `Message.apply` what they do
with it; `processMessage_eq` says that nothing else of a buffer counts.

The builders of synthetic messages write the five layouts that the handlers read.  All of them
have the type, the timestamp and the reference number at the same places, so a built message is
`layout` with the rest of its type, and its fields are found by dropping a fixed number of bytes.
-/
import TickPlant.Itch.Replay

namespace TickPlant.ITCHReplay

/-- A message, with the fields that its handler reads. -/
inductive Message
  | addOrder (refNum : ℕ) (side : UInt8) (shares : ℕ) (stock : Bytes) (priceRaw : ℕ)
  | orderExecuted (refNum executedShares : ℕ)
  | orderCancel (refNum cancelledShares : ℕ)
  | orderDelete (refNum : ℕ)
  | orderReplace (oldRefNum newRefNum newShares newPriceRaw : ℕ)
deriving DecidableEq, Repr

/-- The timestamp that `process_message` reads. -/
def timestamp (buf : Bytes) : ℕ := if 11 ≤ buf.length then ru48 (buf.drop 5) else 0

/-- What the handlers read: nothing from a message of another type or one that is too short. -/
def decode (buf : Bytes) : Option Message :=
  match buf.head?.bind kindOf with
  | some .addOrder =>
    if buf.length < 36 then none
    else some (.addOrder (ru64 (buf.drop 11)) (buf.getD 19 0) (ru32 (buf.drop 20))
      (readStock (buf.drop 24)) (ru32 (buf.drop 32)))
  | some .executed =>
    if buf.length < 31 then none
    else some (.orderExecuted (ru64 (buf.drop 11)) (ru32 (buf.drop 19)))
  | some .cancel =>
    if buf.length < 23 then none
    else some (.orderCancel (ru64 (buf.drop 11)) (ru32 (buf.drop 19)))
  | some .delete =>
    if buf.length < 19 then none else some (.orderDelete (ru64 (buf.drop 11)))
  | some .replace =>
    if buf.length < 35 then none
    else some (.orderReplace (ru64 (buf.drop 11)) (ru64 (buf.drop 19)) (ru32 (buf.drop 27))
      (ru32 (buf.drop 31)))
  | none => none

namespace Message

/-- The order that an Add Order message describes. -/
def order (refNum : ℕ) (side : UInt8) (shares : ℕ) (stock : Bytes) (priceRaw : ℕ) : Order where
  refNum := refNum
  side := side
  remaining := shares
  price := priceRaw / 10000
  stock := stock

/-- The operation that a message stands for, with the counter of its type. -/
def apply (ts : ℕ) : Message → ITCHReplay → Except Exn ITCHReplay
  | addOrder refNum side shares stock priceRaw, r =>
    r.addOrder (order refNum side shares stock priceRaw) ts
  | orderExecuted refNum executedShares, r => do
    let r ← r.reduceOrder refNum executedShares ts
    return { r with executeCount := r.executeCount + 1 }
  | orderCancel refNum cancelledShares, r => do
    let r ← r.reduceOrder refNum cancelledShares ts
    return { r with cancelCount := r.cancelCount + 1 }
  | orderDelete refNum, r => do
    let r ← r.removeOrder refNum ts
    return { r with deleteCount := r.deleteCount + 1 }
  | orderReplace oldRefNum _ _ _, r => do
    let r ← r.removeOrder oldRefNum ts
    return { r with replaceCount := r.replaceCount + 1 }

/-- The message of the builder for its type. -/
def build (ts : ℕ) : Message → Bytes
  | addOrder refNum side shares stock priceRaw => makeAddOrder refNum side shares stock priceRaw ts
  | orderExecuted refNum executedShares => makeOrderExecuted refNum executedShares ts
  | orderCancel refNum cancelledShares => makeOrderCancel refNum cancelledShares ts
  | orderDelete refNum => makeOrderDelete refNum ts
  | orderReplace oldRefNum newRefNum newShares newPriceRaw =>
    makeOrderReplace oldRefNum newRefNum newShares newPriceRaw ts

/-- The fields fit their types, and the stock is a symbol as `read_stock` returns it. -/
def Fits : Message → Prop
  | addOrder refNum _ shares stock priceRaw =>
    refNum < 2 ^ 64 ∧ shares < 2 ^ 32 ∧ priceRaw < 2 ^ 32 ∧
      stock.length ≤ 8 ∧ 0 ∉ stock ∧ stock.getLast? ≠ some 32
  | orderExecuted refNum executedShares => refNum < 2 ^ 64 ∧ executedShares < 2 ^ 32
  | orderCancel refNum cancelledShares => refNum < 2 ^ 64 ∧ cancelledShares < 2 ^ 32
  | orderDelete refNum => refNum < 2 ^ 64
  | orderReplace oldRefNum newRefNum newShares newPriceRaw =>
    oldRefNum < 2 ^ 64 ∧ newRefNum < 2 ^ 64 ∧ newShares < 2 ^ 32 ∧ newPriceRaw < 2 ^ 32

end Message

/-- A call of `process_message` reads the message and applies it. -/
lemma processMessage_eq (r : ITCHReplay) (buf : Bytes) :
    r.processMessage buf =
      match decode buf with
      | some m => (fun r' => (r', true)) <$> m.apply (timestamp buf) r
      | none => .ok (r, (buf.head?.bind kindOf).isSome) := by
  cases buf with
  | nil => rfl
  | cons type buf =>
    rw [processMessage, decode, timestamp, List.head?_cons, Option.bind_some]
    generalize (if 11 ≤ (type :: buf).length then ru48 ((type :: buf).drop 5) else 0) = ts
    cases hkind : kindOf type with
    | none => rfl
    | some kind =>
      cases kind with
      | addOrder =>
        simp only [handleAddOrder]
        split <;> rfl
      | executed =>
        simp only [handleOrderExecuted]
        split <;> rfl
      | cancel =>
        simp only [handleOrderCancel]
        split <;> rfl
      | delete =>
        simp only [handleOrderDelete]
        split <;> rfl
      | replace =>
        simp only [handleOrderReplace]
        split <;> rfl

/-- A decoded reference number fits its type. -/
lemma refNum_lt_of_decode {buf : Bytes} {refNum : ℕ} {side : UInt8} {shares : ℕ} {stock : Bytes}
    {priceRaw : ℕ} (h : decode buf = some (.addOrder refNum side shares stock priceRaw)) :
    refNum < 2 ^ 64 := by
  rw [decode] at h
  cases hkind : buf.head?.bind kindOf with
  | none =>
    rw [hkind] at h
    cases h
  | some kind =>
    rw [hkind] at h
    cases kind with
    | addOrder =>
      obtain ⟨-, rfl, -⟩ := by simpa using h
      exact ru64_lt _
    | executed => simp at h
    | cancel => simp at h
    | delete => simp at h
    | replace => simp at h

/-! ## The layouts -/

/-- A message with its type, its timestamp and its first reference number. -/
def layout (type : UInt8) (ts refNum : ℕ) (rest : Bytes) : Bytes :=
  type :: 0 :: 0 :: 0 :: 0 :: (wu48 ts ++ (wu64 refNum ++ rest))

/-- A stock, filled up with spaces. -/
def padStock (stock : Bytes) : Bytes := stock ++ List.replicate (8 - stock.length) 32

lemma makeOrderExecuted_eq (refNum executedShares ts : ℕ) :
    makeOrderExecuted refNum executedShares ts =
      layout 69 ts refNum (wu32 executedShares ++ List.replicate 8 0) := rfl

lemma makeOrderCancel_eq (refNum cancelledShares ts : ℕ) :
    makeOrderCancel refNum cancelledShares ts = layout 88 ts refNum (wu32 cancelledShares ++ []) :=
  rfl

lemma makeOrderDelete_eq (refNum ts : ℕ) : makeOrderDelete refNum ts = layout 68 ts refNum [] := rfl

lemma makeOrderReplace_eq (oldRefNum newRefNum newShares newPriceRaw ts : ℕ) :
    makeOrderReplace oldRefNum newRefNum newShares newPriceRaw ts =
      layout 85 ts oldRefNum (wu64 newRefNum ++ (wu32 newShares ++ (wu32 newPriceRaw ++ []))) := rfl

/-- Bytes stored over as many others. -/
lemma store_append {n : ℕ} {a bs old : Bytes} (ha : a.length = n) (hold : old.length = bs.length)
    (rest : Bytes) : store n bs (a ++ (old ++ rest)) = a ++ (bs ++ rest) := by
  subst ha
  simp [store, ← hold, List.drop_append]

/-- The name is stored over the first of eight spaces. -/
lemma makeAddOrder_eq (refNum : ℕ) (side : UInt8) (shares : ℕ) {stock : Bytes}
    (hlength : stock.length ≤ 8) (hnul : 0 ∉ stock) (priceRaw ts : ℕ) :
    makeAddOrder refNum side shares stock priceRaw ts =
      layout 65 ts refNum (side :: (wu32 shares ++ (padStock stock ++ (wu32 priceRaw ++ [])))) := by
  have hname : (stock.takeWhile (· != 0)).take 8 = stock := by
    rw [List.takeWhile_eq_self_iff.mpr, List.take_of_length_le hlength]
    intro b hb
    exact bne_iff_ne.mpr fun h => hnul (h ▸ hb)
  -- the message without its name and its price
  have hblank : makeAddOrder refNum side shares stock priceRaw ts =
      store 32 (wu32 priceRaw) (store 24 stock
        ((layout 65 ts refNum (side :: wu32 shares)) ++
          (List.replicate 8 32 ++ List.replicate 4 0))) := by
    rw [makeAddOrder, hname]
    rfl
  have hspaces : List.replicate 8 (32 : UInt8) =
      List.replicate stock.length 32 ++ List.replicate (8 - stock.length) 32 := by
    rw [← List.replicate_add, Nat.add_sub_cancel' hlength]
  have hpad : (padStock stock).length = 8 := by simp [padStock, hlength]
  have hhead : (layout 65 ts refNum (side :: wu32 shares)).length = 24 := rfl
  have hlen : (layout 65 ts refNum (side :: wu32 shares) ++ padStock stock).length = 32 := by
    rw [List.length_append, hhead, hpad]
  have hzero : (List.replicate 4 (0 : UInt8)).length = (wu32 priceRaw).length := rfl
  have hprice := store_append hlen hzero []
  rw [hblank, hspaces, List.append_assoc, store_append hhead List.length_replicate,
    ← List.append_assoc stock, ← padStock]
  simp only [List.append_assoc, List.append_nil] at hprice
  rw [hprice]
  simp [layout]

/-! ## Reading what was built -/

/-- A symbol is read without the spaces behind it. -/
lemma readStock_padStock {stock : Bytes} (hlength : stock.length ≤ 8)
    (hlast : stock.getLast? ≠ some 32) (rest : Bytes) :
    readStock (padStock stock ++ rest) = stock := by
  have hpad : (padStock stock).length = 8 := by simp [padStock, hlength]
  have hspaces : ∀ b ∈ List.replicate (8 - stock.length) (32 : UInt8), (b == 32) = true := by
    intro b hb
    rw [List.eq_of_mem_replicate hb]
    rfl
  have hself : stock.rdropWhile (· == 32) = stock := by
    rw [List.rdropWhile_eq_self_iff]
    intro hne hspace
    rw [List.getLast?_eq_some_getLast hne, beq_iff_eq.mp hspace] at hlast
    exact hlast rfl
  rw [readStock, List.take_append_of_le_length hpad.ge, List.take_of_length_le hpad.le, padStock,
    List.rdropWhile, List.reverse_append, List.reverse_replicate,
    List.dropWhile_append_of_pos hspaces]
  exact hself

section

variable (type : UInt8) {ts refNum : ℕ} (rest : Bytes)

lemma timestamp_layout (hts : ts < 2 ^ 48) : timestamp (layout type ts refNum rest) = ts :=
  ru48_wu48 _ hts

lemma refNum_layout (href : refNum < 2 ^ 64) :
    ru64 ((layout type ts refNum rest).drop 11) = refNum := ru64_wu64 rest href

lemma length_layout : (layout type ts refNum rest).length = 19 + rest.length := by
  simp [layout, wu48, wu64]
  omega

end

/-- What was built is decoded. -/
lemma decode_build {m : Message} (h : m.Fits) (ts : ℕ) : decode (m.build ts) = some m := by
  cases m with
  | addOrder refNum side shares stock priceRaw =>
    obtain ⟨href, hshares, hprice, hlength, hnul, hlast⟩ := h
    have hpad : (padStock stock).length = 8 := by simp [padStock, hlength]
    have hdrop : (padStock stock ++ (wu32 priceRaw ++ [])).drop 8 = wu32 priceRaw ++ [] := by
      rw [List.drop_append_of_le_length hpad.ge, List.drop_of_length_le hpad.le, List.nil_append]
    rw [Message.build, makeAddOrder_eq refNum side shares hlength hnul]
    generalize hrest : side :: (wu32 shares ++ (padStock stock ++ (wu32 priceRaw ++ []))) = rest
    have hfields : decode (layout 65 ts refNum rest) =
        if (layout 65 ts refNum rest).length < 36 then none
        else some (.addOrder (ru64 ((layout 65 ts refNum rest).drop 11)) (rest.getD 0 0)
          (ru32 (rest.drop 1)) (readStock (rest.drop 5)) (ru32 (rest.drop 13))) := rfl
    have hlen : ¬ (layout 65 ts refNum rest).length < 36 := by
      simp [length_layout, ← hrest, hpad, wu32]
    rw [hfields, if_neg hlen, refNum_layout _ _ href, ← hrest]
    show some (Message.addOrder refNum side (ru32 (wu32 shares ++ _))
      (readStock (padStock stock ++ _)) (ru32 ((padStock stock ++ _).drop 8))) = _
    rw [ru32_wu32 _ hshares, readStock_padStock hlength hlast, hdrop, ru32_wu32 _ hprice]
  | orderExecuted refNum executedShares =>
    obtain ⟨href, hshares⟩ := h
    have hfields : decode (makeOrderExecuted refNum executedShares ts) =
        some (.orderExecuted (ru64 (wu64 refNum ++ _)) (ru32 (wu32 executedShares ++ _))) := rfl
    rw [Message.build, hfields, ru64_wu64 _ href, ru32_wu32 _ hshares]
  | orderCancel refNum cancelledShares =>
    obtain ⟨href, hshares⟩ := h
    have hfields : decode (makeOrderCancel refNum cancelledShares ts) =
        some (.orderCancel (ru64 (wu64 refNum ++ _)) (ru32 (wu32 cancelledShares ++ []))) := rfl
    rw [Message.build, hfields, ru64_wu64 _ href, ru32_wu32 _ hshares]
  | orderDelete refNum =>
    have hfields : decode (makeOrderDelete refNum ts) =
        some (.orderDelete (ru64 (wu64 refNum ++ []))) := rfl
    rw [Message.build, hfields, ru64_wu64 _ h]
  | orderReplace oldRefNum newRefNum newShares newPriceRaw =>
    obtain ⟨hold, hnew, hshares, hprice⟩ := h
    rw [Message.build, makeOrderReplace_eq]
    generalize hrest : wu64 newRefNum ++ (wu32 newShares ++ (wu32 newPriceRaw ++ [])) = rest
    have hfields : decode (layout 85 ts oldRefNum rest) =
        if (layout 85 ts oldRefNum rest).length < 35 then none
        else some (.orderReplace (ru64 ((layout 85 ts oldRefNum rest).drop 11)) (ru64 rest)
          (ru32 (rest.drop 8)) (ru32 (rest.drop 12))) := rfl
    have hlen : ¬ (layout 85 ts oldRefNum rest).length < 35 := by
      simp [length_layout, ← hrest, wu64, wu32]
    rw [hfields, if_neg hlen, refNum_layout _ _ hold, ← hrest]
    show some (Message.orderReplace oldRefNum (ru64 (wu64 newRefNum ++ _))
      (ru32 (wu32 newShares ++ _)) (ru32 (wu32 newPriceRaw ++ []))) = _
    rw [ru64_wu64 _ hnew, ru32_wu32 _ hshares, ru32_wu32 _ hprice]

lemma timestamp_build {m : Message} (h : m.Fits) {ts : ℕ} (hts : ts < 2 ^ 48) :
    timestamp (m.build ts) = ts := by
  cases m with
  | addOrder refNum side shares stock priceRaw =>
    obtain ⟨-, -, -, hlength, hnul, -⟩ := h
    rw [Message.build, makeAddOrder_eq refNum side shares hlength hnul, timestamp_layout _ _ hts]
  | orderExecuted => rw [Message.build, makeOrderExecuted_eq, timestamp_layout _ _ hts]
  | orderCancel => rw [Message.build, makeOrderCancel_eq, timestamp_layout _ _ hts]
  | orderDelete => rw [Message.build, makeOrderDelete_eq, timestamp_layout _ _ hts]
  | orderReplace => rw [Message.build, makeOrderReplace_eq, timestamp_layout _ _ hts]

/-- **The builders and the handlers agree on the five layouts.**  Whatever the state, the fields
and the timestamp, a built message passes the length check of its handler, the handler reads the
fields and the timestamp that the builder was given, and `process_message` does what the operation
with these arguments does, to the state and to the callback. -/
theorem processMessage_build (r : ITCHReplay) (m : Message) (h : m.Fits) (ts : ℕ)
    (hts : ts < 2 ^ 48) :
    decode (m.build ts) = some m ∧ timestamp (m.build ts) = ts ∧
      r.processMessage (m.build ts) = (fun r' => (r', true)) <$> m.apply ts r := by
  refine ⟨decode_build h ts, timestamp_build h hts, ?_⟩
  rw [processMessage_eq, decode_build h, timestamp_build h hts]

theorem processMessage_build_sell :
    let m : Message := .addOrder (2 ^ 64 - 1) 83 100 (bytes "AAPL") 1012500
    decode (m.build 34200) = some m ∧ timestamp (m.build 34200) = 34200 ∧
      processMessage {} (m.build 34200) = (fun r' => (r', true)) <$> m.apply 34200 {} :=
  processMessage_build {} (.addOrder (2 ^ 64 - 1) 83 100 (bytes "AAPL") 1012500)
    (by unfold Message.Fits; decide +kernel) 34200 (by norm_num)

end TickPlant.ITCHReplay
