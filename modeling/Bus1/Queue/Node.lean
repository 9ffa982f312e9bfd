/-
  Bus1.Queue.Node

  Queue nodes of `util/queue.h` and `bus1_queue_compare()`, the comparator
  that orders them.

  A node's `timestamp_and_type` keeps the timestamp in its low 62 bits and
  the node type in the top two (`BUS1_QUEUE_TYPE_MASK`).  The comparator is
  the lexicographic order on (timestamp, sender): read as the one number
  `ts * 2^64 + sender` (`sortKey`), it is the three-way comparison of
  naturals (`queueCompare_eq`), from which every law of a total order
  follows by `omega`.
-/
import Mathlib.Tactic.Ring
import Mathlib.Tactic.SplitIfs

namespace Bus1.Queue

/-- `BUS1_QUEUE_TYPE_SHIFT`. -/
def TYPE_SHIFT : Nat := 62

/-- `BUS1_QUEUE_TYPE_MASK`: `((u64)3ULL) << BUS1_QUEUE_TYPE_SHIFT`. -/
def TYPE_MASK : BitVec 64 := 3 <<< TYPE_SHIFT

/-- The ordering fields of `struct bus1_queue_node`: the sender tag (an
    `unsigned long`, 64 bits) and `timestamp_and_type`. -/
structure Node where
  sender : BitVec 64
  timestampAndType : BitVec 64
  deriving DecidableEq, Repr

/-- `bus1_queue_node_init()`: the type in the top bits, timestamp 0. -/
def nodeInit (type : BitVec 32) (sender : BitVec 64) : Node :=
  ⟨sender, type.setWidth 64 <<< TYPE_SHIFT⟩

/-- The `WARN_ON` of `bus1_queue_node_init()`: type bits outside the mask. -/
def nodeInitWarns (type : BitVec 32) : Bool :=
  type.setWidth 64 &&& ~~~(TYPE_MASK >>> TYPE_SHIFT) ≠ 0

/-- `bus1_queue_node_get_type()`, returned as an `unsigned int`. -/
def nodeGetType (node : Node) : BitVec 32 :=
  ((node.timestampAndType &&& TYPE_MASK) >>> TYPE_SHIFT).setWidth 32

/-- `bus1_queue_node_get_timestamp()`. -/
def nodeGetTimestamp (node : Node) : BitVec 64 :=
  node.timestampAndType &&& ~~~TYPE_MASK

/-- `bus1_queue_node_is_staging()`. -/
def nodeIsStaging (node : Node) : Bool :=
  nodeGetTimestamp node &&& 1 ≠ 0

/-- `bus1_queue_compare()`; `u64` comparisons are unsigned. -/
def queueCompare (aTs aSender bTs bSender : BitVec 64) : Int :=
  if aTs < bTs then -1
  else if aTs > bTs then 1
  else if aSender < bSender then -1
  else if aSender > bSender then 1
  else 0

/-! ## Masks -/

theorem not_TYPE_MASK_toNat : (~~~TYPE_MASK).toNat = 2 ^ 62 - 1 := rfl

/-- The timestamp is `timestamp_and_type` without its top two bits. -/
@[simp] theorem nodeGetTimestamp_toNat (node : Node) :
    (nodeGetTimestamp node).toNat = node.timestampAndType.toNat % 2 ^ 62 := by
  rw [nodeGetTimestamp, BitVec.toNat_and, not_TYPE_MASK_toNat, Nat.and_pow_two_sub_one_eq_mod]

/-- A node is staging exactly when its timestamp is odd. -/
theorem nodeIsStaging_iff (node : Node) :
    nodeIsStaging node = true ↔ (nodeGetTimestamp node).toNat % 2 = 1 := by
  simp only [nodeIsStaging, ne_eq, decide_eq_true_eq, BitVec.toNat_eq, BitVec.toNat_and,
    show (1 : BitVec 64).toNat = 1 from rfl, show (0 : BitVec 64).toNat = 0 from rfl,
    Nat.and_one_is_mod]
  omega

/-! ## The comparator -/

/-- A three-way comparison, as a C comparator returns it. -/
def threeWay (a b : Nat) : Int := if a < b then -1 else if a = b then 0 else 1

/-- A (timestamp, sender) pair as one number: its lexicographic order is the
    order of naturals. -/
def sortKey (ts sender : BitVec 64) : Nat := ts.toNat * 2 ^ 64 + sender.toNat

section Keys

variable {aTs aSender bTs bSender : BitVec 64}

theorem sortKey_lt_iff : sortKey aTs aSender < sortKey bTs bSender ↔
    Prod.Lex (· < ·) (· < ·) (aTs, aSender) (bTs, bSender) := by
  have := aSender.isLt; have := bSender.isLt
  simp only [sortKey, Prod.lex_def, BitVec.lt_def, BitVec.toNat_eq]
  omega

theorem sortKey_inj : sortKey aTs aSender = sortKey bTs bSender ↔ aTs = bTs ∧ aSender = bSender := by
  have := aSender.isLt; have := bSender.isLt
  simp only [sortKey, BitVec.toNat_eq]
  omega

/-- The comparator is the three-way comparison of sort keys. -/
theorem queueCompare_eq :
    queueCompare aTs aSender bTs bSender = threeWay (sortKey aTs aSender) (sortKey bTs bSender) := by
  have := aSender.isLt; have := bSender.isLt
  simp only [queueCompare, threeWay, sortKey, BitVec.lt_def, GT.gt]
  split_ifs <;> omega

end Keys

section ThreeWay

variable {a b c : Nat}

theorem threeWay_cases (a b : Nat) : threeWay a b = -1 ∨ threeWay a b = 0 ∨ threeWay a b = 1 := by
  unfold threeWay; split_ifs <;> simp

theorem threeWay_eq_neg_one_iff : threeWay a b = -1 ↔ a < b := by
  unfold threeWay; split_ifs <;> simp_all

theorem threeWay_eq_zero_iff : threeWay a b = 0 ↔ a = b := by
  unfold threeWay; split_ifs <;> simp_all; omega

theorem threeWay_eq_one_iff : threeWay a b = 1 ↔ b < a := by
  unfold threeWay; split_ifs <;> simp_all <;> omega

theorem threeWay_swap : threeWay b a = -threeWay a b := by
  unfold threeWay; split_ifs <;> omega

theorem threeWay_nonpos_iff : threeWay a b ≤ 0 ↔ a ≤ b := by
  unfold threeWay; split_ifs <;> simp <;> omega

end ThreeWay

/-- `bus1_queue_compare()` is the lexicographic comparison of (timestamp,
    sender) pairs: it returns -1, 0 or 1 as the first pair is before, equal to
    or after the second; it is antisymmetric and transitive.  On queue nodes,
    through `bus1_queue_node_get_timestamp()`, it orders by the 62-bit
    timestamp with the type bits masked out, then by sender; a staging node
    (odd timestamp) precedes every node with a later timestamp. -/
theorem queue_compare_lexicographic :
    (∀ aTs aSender bTs bSender : BitVec 64,
      (queueCompare aTs aSender bTs bSender = -1 ∨ queueCompare aTs aSender bTs bSender = 0 ∨
        queueCompare aTs aSender bTs bSender = 1) ∧
      (queueCompare aTs aSender bTs bSender = -1 ↔
        Prod.Lex (· < ·) (· < ·) (aTs, aSender) (bTs, bSender)) ∧
      (queueCompare aTs aSender bTs bSender = 0 ↔ aTs = bTs ∧ aSender = bSender) ∧
      (queueCompare aTs aSender bTs bSender = 1 ↔
        Prod.Lex (· < ·) (· < ·) (bTs, bSender) (aTs, aSender)) ∧
      queueCompare bTs bSender aTs aSender = -queueCompare aTs aSender bTs bSender) ∧
    (∀ aTs aSender bTs bSender cTs cSender : BitVec 64,
      queueCompare aTs aSender bTs bSender ≤ 0 → queueCompare bTs bSender cTs cSender ≤ 0 →
        queueCompare aTs aSender cTs cSender ≤ 0) ∧
    (∀ aTs aSender bTs bSender cTs cSender : BitVec 64,
      queueCompare aTs aSender bTs bSender = -1 → queueCompare bTs bSender cTs cSender = -1 →
        queueCompare aTs aSender cTs cSender = -1) ∧
    (∀ a b : Node,
      (queueCompare (nodeGetTimestamp a) a.sender (nodeGetTimestamp b) b.sender = -1 ↔
        Prod.Lex (· < ·) (· < ·) (a.timestampAndType.toNat % 2 ^ 62, a.sender.toNat)
          (b.timestampAndType.toNat % 2 ^ 62, b.sender.toNat)) ∧
      (queueCompare (nodeGetTimestamp a) a.sender (nodeGetTimestamp b) b.sender = 0 ↔
        a.timestampAndType.toNat % 2 ^ 62 = b.timestampAndType.toNat % 2 ^ 62 ∧
          a.sender = b.sender)) ∧
    (∀ a b : Node, nodeIsStaging a = true → nodeGetTimestamp a < nodeGetTimestamp b →
      (nodeGetTimestamp a).toNat % 2 = 1 ∧
      queueCompare (nodeGetTimestamp a) a.sender (nodeGetTimestamp b) b.sender = -1) := by
  refine ⟨fun aTs aSender bTs bSender => ?_, fun _ _ _ _ _ _ h₁ h₂ => ?_,
    fun _ _ _ _ _ _ h₁ h₂ => ?_, fun a b => ?_, fun a b hs hlt => ?_⟩
  · rw [queueCompare_eq, queueCompare_eq]
    exact ⟨threeWay_cases _ _, threeWay_eq_neg_one_iff.trans sortKey_lt_iff,
      threeWay_eq_zero_iff.trans sortKey_inj, threeWay_eq_one_iff.trans sortKey_lt_iff,
      threeWay_swap⟩
  · rw [queueCompare_eq, threeWay_nonpos_iff] at *; omega
  · rw [queueCompare_eq, threeWay_eq_neg_one_iff] at *; omega
  · rw [queueCompare_eq, threeWay_eq_neg_one_iff, threeWay_eq_zero_iff, sortKey_lt_iff,
      sortKey_inj, Prod.lex_def, Prod.lex_def, BitVec.lt_def, BitVec.lt_def, BitVec.toNat_eq]
    simp only [nodeGetTimestamp_toNat, and_self]
  · rw [queueCompare_eq, threeWay_eq_neg_one_iff, sortKey_lt_iff, Prod.lex_def]
    exact ⟨(nodeIsStaging_iff a).1 hs, .inl hlt⟩

end Bus1.Queue
