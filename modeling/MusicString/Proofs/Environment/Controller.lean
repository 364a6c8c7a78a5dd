import MusicString.Dictionary.Standard
import MusicString.Proofs.Element.Evaluate
import MusicString.Proofs.Grammar.RoundTrip
import MusicString.Environment

/-!
# Controllers of 14 bits

A controller of 14 bits has a coarse and a fine number, and its name stands for both: for
`coarse * 128 + fine`.  Evaluation takes a number above 127 for such a pair and sends the upper
seven bits of the value to the coarse number and the lower ones to the fine number.  The pair of
the bank select, whose coarse number is zero, is not above 127: it is taken for the number of a
controller of 7 bits, so that its values are limited to 7 bits and go to its fine number alone.

* `Standard.HoldsControllers`, `Standard.get?_controller`: what the names stand for;
* `Grammar.element_controllerToken`: how the token that names a controller is read;
* `exists_controllerMessages_pair`, `exists_controllerMessages_single`,
  `controllerMessages_of_gt`: the messages of a pair, and of a number of 7 bits;
* `Environment.evaluate_combinedController`.
-/

namespace MusicString

open Read Evaluation

/-! ### Names -/

theorem integer_nearest_val {n : Int} (h : 0 ≤ n ∧ n ≤ max14Bit) : (Integer.nearest n).val = n := by
  unfold max14Bit at h
  exact Ranged.clamp_val _ (by omega)

namespace Standard

/-- The dictionary holds what the names of the controllers of 14 bits stand for. -/
def HoldsControllers (d : Dictionary) : Prop :=
  ∀ row ∈ combinedControllers, d.get? row.1 = dictionary.get? row.1

variable {name : String} {coarse fine : Int}

/-- The name of a controller of 14 bits is defined once, as the pair of its numbers. -/
theorem get?_controller (h : (name, coarse, fine) ∈ combinedControllers) :
    dictionary.get? name = some ⟨.int (.nearest (coarse * 128 + fine)), .value⟩ := by
  -- The last definition of a name counts, and these names are not defined again behind their own.
  have hlast : ∀ row ∈ combinedControllers, (definitions.reverse.find? (·.1 = row.1)).map (·.2) =
      some ⟨.int (.nearest (row.2.1 * 128 + row.2.2)), .value⟩ := by
    decide +kernel
  have hrow := hlast _ h
  show (NameMap.empty.insertAll definitions).get? name = _
  rw [NameMap.get?_insertAll, hrow]
  rfl

theorem controller_in_range (h : (name, coarse, fine) ∈ combinedControllers) :
    (0 ≤ coarse ∧ coarse ≤ 127) ∧ 0 ≤ fine ∧ fine ≤ 127 := by
  have hall : ∀ row ∈ combinedControllers,
      (0 ≤ row.2.1 ∧ row.2.1 ≤ 127) ∧ 0 ≤ row.2.2 ∧ row.2.2 ≤ 127 := by decide
  exact hall _ h

/-- The bank select is the one controller whose coarse number is zero. -/
theorem coarse_eq_zero_iff (h : (name, coarse, fine) ∈ combinedControllers) :
    coarse = 0 ↔ name = "BANK_SELECT" := by
  have hall : ∀ row ∈ combinedControllers, row.2.1 = 0 ↔ row.1 = "BANK_SELECT" := by
    decide +kernel
  exact hall _ h

theorem controller_mem_nameText (h : (name, coarse, fine) ∈ combinedControllers) :
    name.toList ∈ nameText := by
  have hall : ∀ row ∈ combinedControllers, row.1.toList ≠ [] ∧
      row.1.toList.all (fun c => c ≠ ']' ∧ Text.isWhiteSpace c = false) = true := by
    decide +kernel
  obtain ⟨hne, hchars⟩ := hall _ h
  exact mem_nameText hne hchars

theorem val_pair (h : (name, coarse, fine) ∈ combinedControllers) :
    (Integer.nearest (coarse * 128 + fine)).val = coarse * 128 + fine := by
  obtain ⟨hcoarse, hfine⟩ := controller_in_range h
  refine integer_nearest_val ?_
  unfold max14Bit
  omega

/-- A pair whose coarse number is zero looks like a number of 7 bits. -/
theorem pair_le (h : (name, 0, fine) ∈ combinedControllers) :
    0 ≤ (Integer.nearest (0 * 128 + fine)).val ∧
      (Integer.nearest (0 * 128 + fine)).val ≤ maxDataByte := by
  rw [val_pair h, Int.zero_mul, Int.zero_add]
  exact (controller_in_range h).2

end Standard

/-! ### Tokens -/

namespace Grammar

/-- The token that sets a controller, by its name, to a number. -/
def controllerToken (name : String) (v : Nat) : List Char :=
  'X' :: (bracketed name.toList ++ '=' :: Decimal.digits v)

theorem element_controller (d : Dictionary) {index value : Expr Integer} (hindex : index.Writable)
    (hvalue : value.Writable) :
    let text := 'X' :: (index.text.toList ++ '=' :: value.text.toList)
    element d (.start text) = .ok (.controller index value) ⟨text.length, []⟩ := by
  intro text
  have hbody : controller ⟨0 + 1, index.text.toList ++ '=' :: value.text.toList ++ []⟩ =
      .ok (.controller index value)
        ⟨0 + 1 + (index.text.toList ++ '=' :: value.text.toList).length, []⟩ :=
    fields_of_ok (intExpr_text rfl _ hindex) (intExpr_text rfl _ hvalue)
  have hclaim : ∀ after, firstClaim d rules ⟨0, 'X' :: after⟩ =
      firstClaim d (marked "controller" 'X' controller :: rules.drop 9) ⟨0, 'X' :: after⟩ :=
    fun _ => rfl
  have hread := element_of_body "controller" (rules.drop 9) hclaim hbody
  rwa [List.append_nil, Nat.zero_add] at hread

theorem element_controllerToken (d : Dictionary) {name : String} (hname : name.toList ∈ nameText)
    {v : Nat} (hv : v ≤ 16383) :
    element d (.start (controllerToken name v)) =
      .ok (.controller (.reference name) (.literal (.nearest v)))
        ⟨(controllerToken name v).length, []⟩ := by
  have htext : controllerToken name v = 'X' :: ((Expr.reference name : Expr Integer).text.toList ++
      '=' :: (Expr.literal (Integer.nearest v)).text.toList) := by
    have hval : (Integer.nearest v).val = v :=
      integer_nearest_val ⟨Int.natCast_nonneg v, Int.ofNat_le.2 hv⟩
    have hvalue : (Expr.literal (Integer.nearest v)).text.toList = Decimal.digits v := by
      show (Decimal.text (Integer.nearest v).val).toList = _
      rw [hval, Decimal.text, String.toList_ofList]
      rfl
    rw [hvalue]
    simp [controllerToken, Expr.text, bracketed]
  rw [htext]
  exact element_controller d hname trivial

end Grammar

/-! ### Messages -/

/-- The numbers of messages. -/
def messageNumbers (messages : List (Byte × Byte)) : List (Int × Int) :=
  messages.map fun m => (m.1.val, m.2.val)

section Messages

variable {index value : Integer}

/-- A pair of numbers whose coarse one is not zero gets both halves of the value. -/
theorem exists_controllerMessages_pair {coarse fine : Int} (hcoarse : 0 < coarse ∧ coarse ≤ 127)
    (hfine : 0 ≤ fine ∧ fine ≤ 127) (hindex : index.val = coarse * 128 + fine)
    (hvalue : 0 ≤ value.val ∧ value.val ≤ max14Bit) :
    ∃ messages, controllerMessages index value = .ok messages ∧
      messageNumbers messages = [(coarse, value.val / 128), (fine, value.val % 128)] := by
  refine ⟨[(msb index.val, msb value.val), (lsb index.val, lsb value.val)], ?_, ?_⟩
  · have hlarge : maxDataByte < index.val := by
      unfold maxDataByte
      omega
    rw [controllerMessages, if_pos hlarge, check_of_mem hvalue]
    rfl
  · unfold max14Bit at hvalue
    simp only [messageNumbers, List.map_cons, List.map_nil, msb, lsb, max14Bit, List.cons.injEq,
      Prod.mk.injEq, and_true]
    omega

/-- A number of 7 bits gets a value of 7 bits whole. -/
theorem exists_controllerMessages_single (hindex : 0 ≤ index.val ∧ index.val ≤ maxDataByte)
    (hvalue : 0 ≤ value.val ∧ value.val ≤ maxDataByte) :
    ∃ messages, controllerMessages index value = .ok messages ∧
      messageNumbers messages = [(index.val, value.val)] := by
  refine ⟨[(.nearest index.val, .nearest value.val)], ?_, ?_⟩
  · rw [controllerMessages, if_neg (not_lt.2 hindex.2), check_of_mem hvalue]
    rfl
  · unfold maxDataByte at hindex hvalue
    have hindex' : (Byte.nearest index.val).val = index.val := nearest_val (by omega)
    have hvalue' : (Byte.nearest value.val).val = value.val := nearest_val (by omega)
    simp only [messageNumbers, List.map_cons, List.map_nil, hindex', hvalue']

/-- A number of 7 bits gets no larger value. -/
theorem controllerMessages_of_gt (hindex : index.val ≤ maxDataByte)
    (hvalue : maxDataByte < value.val) :
    controllerMessages index value =
      .error (.outOfRange .controllerValue value.val 0 maxDataByte) := by
  rw [controllerMessages, if_neg (not_lt.2 hindex), check_of_gt hvalue]
  rfl

end Messages

/-! ### Evaluation -/

namespace Environment

variable {σ : Type} {env : Environment σ} {name : String} {coarse fine : Int}

/-- A controller that is named gets the messages of its pair of numbers. -/
theorem evaluate_controller (hstandard : Standard.HoldsControllers env.dictionary)
    (hrow : (name, coarse, fine) ∈ Standard.combinedControllers) (value : Integer) :
    env.evaluate (.controller (.reference name) (.literal value)) =
      .controller env.defaults.voice (.nearest (coarse * 128 + fine)) value <$>
        controllerMessages (.nearest (coarse * 128 + fine)) value := by
  have hentry := (hstandard _ hrow).trans (Standard.get?_controller hrow)
  have heval : Expr.eval env.dictionary (.reference name) =
      .ok (Integer.nearest (coarse * 128 + fine)) := by
    simp only [Expr.eval, hentry, Scalar.ofValue?, Value.integer?, Option.bind_some,
      Ranged.ofInt?_val]
  have hcheck : check .controllerIndex 0 max14Bit (Integer.nearest (coarse * 128 + fine)) =
      .ok (Integer.nearest (coarse * 128 + fine)) := by
    obtain ⟨hcoarse, hfine⟩ := Standard.controller_in_range hrow
    refine check_of_mem ?_
    rw [Standard.val_pair hrow, max14Bit]
    omega
  simp only [evaluate, Element.evaluate, heval, Expr.eval_literal]
  show (check .controllerIndex 0 max14Bit (Integer.nearest (coarse * 128 + fine)) >>= _) = _
  rw [hcheck, map_eq_pure_bind]
  rfl

/-- A controller whose coarse number is not zero gets both halves of the value. -/
theorem exists_evaluate_pair (hstandard : Standard.HoldsControllers env.dictionary)
    (hrow : (name, coarse, fine) ∈ Standard.combinedControllers) (hcoarse : coarse ≠ 0)
    {value : Integer} (hvalue : 0 ≤ value.val ∧ value.val ≤ max14Bit) :
    ∃ messages, env.evaluate (.controller (.reference name) (.literal value)) =
        .ok (.controller env.defaults.voice (.nearest (coarse * 128 + fine)) value messages) ∧
      messageNumbers messages = [(coarse, value.val / 128), (fine, value.val % 128)] := by
  obtain ⟨hrange, hfine⟩ := Standard.controller_in_range hrow
  have hpositive : 0 < coarse ∧ coarse ≤ 127 := ⟨by omega, hrange.2⟩
  obtain ⟨messages, hmessages, hnumbers⟩ :=
    exists_controllerMessages_pair hpositive hfine (Standard.val_pair hrow) hvalue
  refine ⟨messages, ?_, hnumbers⟩
  rw [evaluate_controller hstandard hrow, hmessages]
  rfl

/-- A controller whose coarse number is zero gets a value of 7 bits on its fine number. -/
theorem exists_evaluate_single (hstandard : Standard.HoldsControllers env.dictionary)
    (hrow : (name, 0, fine) ∈ Standard.combinedControllers) {value : Integer}
    (hvalue : 0 ≤ value.val ∧ value.val ≤ maxDataByte) :
    ∃ messages, env.evaluate (.controller (.reference name) (.literal value)) =
        .ok (.controller env.defaults.voice (.nearest (0 * 128 + fine)) value messages) ∧
      messageNumbers messages = [(fine, value.val)] := by
  obtain ⟨messages, hmessages, hnumbers⟩ :=
    exists_controllerMessages_single (Standard.pair_le hrow) hvalue
  refine ⟨messages, ?_, ?_⟩
  · rw [evaluate_controller hstandard hrow, hmessages]
    rfl
  · rw [hnumbers, Standard.val_pair hrow, Int.zero_mul, Int.zero_add]

/-- A controller whose coarse number is zero gets no larger value. -/
theorem evaluate_of_gt (hstandard : Standard.HoldsControllers env.dictionary)
    (hrow : (name, 0, fine) ∈ Standard.combinedControllers) {value : Integer}
    (hvalue : maxDataByte < value.val) :
    env.evaluate (.controller (.reference name) (.literal value)) =
      .error (.outOfRange .controllerValue value.val 0 maxDataByte) := by
  rw [evaluate_controller hstandard hrow, controllerMessages_of_gt (Standard.pair_le hrow).2 hvalue]
  rfl

/--
**Combined controllers.**  Where the standard names of the controllers of 14 bits are in force, the
token that sets one of them to a number of 14 bits is read, and sends its upper seven bits to the
coarse number and its lower ones to the fine number.  Only the bank select, whose coarse number is
zero, is taken for a controller of 7 bits.
-/
theorem evaluate_combinedController (hstandard : Standard.HoldsControllers env.dictionary)
    (hrow : (name, coarse, fine) ∈ Standard.combinedControllers) {v : Nat} (hv : v ≤ 16383) :
    let token := Grammar.controllerToken name v
    let event := Event.controller env.defaults.voice (.nearest (coarse * 128 + fine)) (.nearest v)
    ∃ element, Grammar.element env.dictionary (.start token) = .ok element ⟨token.length, []⟩ ∧
      (name ≠ "BANK_SELECT" → ∃ messages, env.evaluate element = .ok (event messages) ∧
        messageNumbers messages = [(coarse, (v : Int) / 128), (fine, (v : Int) % 128)] ∧
        (v : Int) / 128 * 128 + (v : Int) % 128 = v) ∧
      (name = "BANK_SELECT" → v ≤ 127 → ∃ messages, env.evaluate element = .ok (event messages) ∧
        messageNumbers messages = [(fine, (v : Int))]) ∧
      (name = "BANK_SELECT" → 127 < v →
        env.evaluate element = .error (.outOfRange .controllerValue v 0 127)) := by
  intro token event
  have hvalue : (Integer.nearest v).val = v :=
    integer_nearest_val ⟨Int.natCast_nonneg v, Int.ofNat_le.2 hv⟩
  refine ⟨_, Grammar.element_controllerToken _ (Standard.controller_mem_nameText hrow) hv, ?_, ?_,
    ?_⟩
  · intro hname
    have hcoarse : coarse ≠ 0 := mt (Standard.coarse_eq_zero_iff hrow).1 hname
    obtain ⟨messages, hevaluate, hnumbers⟩ := exists_evaluate_pair hstandard hrow hcoarse
      (by rw [hvalue, max14Bit]; omega)
    rw [hvalue] at hnumbers
    exact ⟨messages, hevaluate, hnumbers, Int.ediv_mul_add_emod _ _⟩
  · intro hname hsmall
    obtain rfl := (Standard.coarse_eq_zero_iff hrow).2 hname
    obtain ⟨messages, hevaluate, hnumbers⟩ := exists_evaluate_single hstandard hrow
      (by rw [hvalue, maxDataByte]; omega)
    rw [hvalue] at hnumbers
    exact ⟨messages, hevaluate, hnumbers⟩
  · intro hname hlarge
    obtain rfl := (Standard.coarse_eq_zero_iff hrow).2 hname
    have hevaluate := evaluate_of_gt hstandard hrow (by rw [hvalue, maxDataByte]; omega)
    rwa [hvalue] at hevaluate

theorem holdsControllers_ofDictionary {d : Dictionary} (h : Standard.HoldsControllers d)
    (state : σ) : Standard.HoldsControllers (ofDictionary d state).dictionary := h

theorem evaluate_combinedController_volume :
    let env := ofDictionary Standard.dictionary ()
    Standard.HoldsControllers env.dictionary ∧
      ("VOLUME", 7, 39) ∈ Standard.combinedControllers ∧
      ∃ element,
        Grammar.element env.dictionary (.start "X[VOLUME]=10200".toList) = .ok element ⟨15, []⟩ ∧
        ∃ messages, env.evaluate element =
            .ok (.controller (.nearest 0) (.nearest 935) (.nearest 10200) messages) ∧
          messageNumbers messages = [(7, 79), (39, 88)] := by
  intro env
  have hstandard : Standard.HoldsControllers env.dictionary :=
    holdsControllers_ofDictionary (fun _ _ => rfl) ()
  have hrow : ("VOLUME", 7, 39) ∈ Standard.combinedControllers := by decide +kernel
  obtain ⟨element, hread, hpair, -⟩ :=
    evaluate_combinedController (v := 10200) hstandard hrow (by decide)
  obtain ⟨messages, hevaluate, hnumbers, -⟩ := hpair (by decide)
  exact ⟨hstandard, hrow, element, hread, messages, hevaluate, hnumbers⟩

/-- The bank select has a coarse and a fine number, but gets no value of 14 bits. -/
theorem bankSelect_rejects_large :
    let env := ofDictionary Standard.dictionary ()
    Standard.HoldsControllers env.dictionary ∧
      ("BANK_SELECT", 0, 32) ∈ Standard.combinedControllers ∧
      ∃ element,
        Grammar.element env.dictionary (.start "X[BANK_SELECT]=1000".toList) =
          .ok element ⟨19, []⟩ ∧
        env.evaluate element = .error (.outOfRange .controllerValue 1000 0 127) := by
  intro env
  have hstandard : Standard.HoldsControllers env.dictionary :=
    holdsControllers_ofDictionary (fun _ _ => rfl) ()
  have hrow : ("BANK_SELECT", 0, 32) ∈ Standard.combinedControllers := by decide +kernel
  have hread := Grammar.element_controllerToken env.dictionary
    (Standard.controller_mem_nameText hrow) (v := 1000) (by decide)
  exact ⟨hstandard, hrow, _, hread, evaluate_of_gt hstandard hrow (by decide)⟩

end Environment

end MusicString
