import BtcRpcProxy.SelfDelimiting
import BtcRpcProxy.WitnessTampering

/-!
The consensus encoding says where it ends: the bytes of a transaction determine it, and without
the witnesses they determine the rest of it.
-/

namespace BtcRpcProxy.Blocks

open SelfDelimiting

def Writable (length : Nat) : Prop := length < 2 ^ 64

def TxIn.Fits (input : TxIn) : Prop :=
  Writable input.scriptSig.length ∧ Writable input.witness.length ∧
    ∀ item ∈ input.witness, Writable item.length

structure Transaction.Fits (transaction : Transaction) : Prop where
  inputs : Writable transaction.input.length ∧ ∀ input ∈ transaction.input, input.Fits
  outputs : Writable transaction.output.length ∧
    ∀ output ∈ transaction.output, Writable output.scriptPubkey.length

structure Block.Fits (block : Block) : Prop where
  count : Writable block.txdata.length
  transactions : ∀ transaction ∈ block.txdata, transaction.Fits

/-! Numbers and byte strings. -/

theorem littleEndian_reads (count : Nat) :
    Reads (littleEndian count) id fun number => number < 256 ^ count := by
  refine reads_of_length count (littleEndian_length count) ?_
  exact fun first second firstBound secondBound same => littleEndian_injective firstBound secondBound same

theorem littleEndian_uInt32_reads : Reads (fun number : UInt32 => littleEndian 4 number.toNat) id fun _ => True :=
  reads_of_length 4 (fun _ => littleEndian_length 4 _) fun _ _ _ _ same => littleEndian_uInt32_injective same

theorem littleEndian_uInt64_reads : Reads (fun number : UInt64 => littleEndian 8 number.toNat) id fun _ => True :=
  reads_of_length 8 (fun _ => littleEndian_length 8 _) fun first second _ _ same =>
    UInt64.toNat_inj.mp (littleEndian_injective first.toNat_lt second.toNat_lt same)

theorem digest_reads : Reads (fun digest : Digest => digest.val) id fun _ => True :=
  reads_of_length 32 (fun digest => digest.2) fun _ _ _ _ same => Subtype.ext same

theorem varInt_cases {number : Nat} (writable : Writable number) :
    (number < 0xFD ∧ varInt number = [UInt8.ofNat number]) ∨
      ∃ marker count, ((marker, count) ∈ [((0xFD : UInt8), 2), (0xFE, 4), (0xFF, 8)]) ∧
        number < 256 ^ count ∧ 0xFD ≤ number ∧ varInt number = marker :: littleEndian count number := by
  have bound : number < 18446744073709551616 := writable
  unfold varInt
  by_cases small : number < 0xFD
  · exact Or.inl ⟨small, by simp [small, littleEndian]⟩
  · right
    by_cases two : number ≤ 0xFFFF
    · exact ⟨0xFD, 2, by simp, by omega, by omega, by simp [small, two]⟩
    · by_cases four : number ≤ 0xFFFFFFFF
      · exact ⟨0xFE, 4, by simp, by omega, by omega, by simp [small, two, four]⟩
      · exact ⟨0xFF, 8, by simp, by omega, by omega, by simp [small, two, four]⟩

theorem ofNat_ne_marker {number count : Nat} {marker : UInt8} (small : number < 0xFD)
    (marked : (marker, count) ∈ [((0xFD : UInt8), 2), (0xFE, 4), (0xFF, 8)]) :
    UInt8.ofNat number ≠ marker := by
  intro same
  have value := congrArg UInt8.toNat same
  rw [UInt8.toNat_ofNat'] at value
  simp only [List.mem_cons, Prod.mk.injEq, List.not_mem_nil, or_false] at marked
  rcases marked with ⟨rfl, _⟩ | ⟨rfl, _⟩ | ⟨rfl, _⟩ <;> simp at value <;> omega

theorem varInt_reads : Reads varInt id Writable := by
  intro first second firstWritable secondWritable left right same
  rcases varInt_cases firstWritable with ⟨firstSmall, isFirst⟩ | ⟨marker, count, marked, bound, _, isFirst⟩
  · rcases varInt_cases secondWritable with
      ⟨secondSmall, isSecond⟩ | ⟨other, width, otherMarked, _, _, isSecond⟩
    · rw [isFirst, isSecond, List.singleton_append, List.singleton_append, List.cons.injEq] at same
      refine ⟨?_, same.2⟩
      have value := congrArg UInt8.toNat same.1
      rw [UInt8.toNat_ofNat', UInt8.toNat_ofNat'] at value
      simp only [id_eq]
      omega
    · rw [isFirst, isSecond, List.singleton_append, List.cons_append, List.cons.injEq] at same
      exact absurd same.1 (ofNat_ne_marker firstSmall otherMarked)
  · rcases varInt_cases secondWritable with
      ⟨secondSmall, isSecond⟩ | ⟨other, width, otherMarked, otherBound, _, isSecond⟩
    · rw [isFirst, isSecond, List.singleton_append, List.cons_append, List.cons.injEq] at same
      exact absurd same.1.symm (ofNat_ne_marker secondSmall marked)
    · rw [isFirst, isSecond, List.cons_append, List.cons_append, List.cons.injEq] at same
      have sameWidth : count = width := by
        have sameMarker := same.1
        simp only [List.mem_cons, Prod.mk.injEq, List.not_mem_nil, or_false] at marked otherMarked
        rcases marked with ⟨rfl, rfl⟩ | ⟨rfl, rfl⟩ | ⟨rfl, rfl⟩ <;>
          rcases otherMarked with ⟨rfl, rfl⟩ | ⟨rfl, rfl⟩ | ⟨rfl, rfl⟩ <;> simp at sameMarker ⊢
      subst sameWidth
      exact littleEndian_reads count first second bound otherBound left right same.2

theorem varInt_head_ne_zero {number : Nat} (writable : Writable number) (positive : 0 < number) :
    ∃ first rest, varInt number = first :: rest ∧ first ≠ 0 := by
  rcases varInt_cases writable with ⟨small, isCode⟩ | ⟨marker, count, marked, _, _, isCode⟩
  · refine ⟨_, _, isCode, ?_⟩
    intro isZero
    have value := congrArg UInt8.toNat isZero
    rw [UInt8.toNat_ofNat'] at value
    simp only [UInt8.toNat_zero] at value
    omega
  · refine ⟨_, _, isCode, ?_⟩
    simp only [List.mem_cons, Prod.mk.injEq, List.not_mem_nil, or_false] at marked
    rcases marked with ⟨rfl, _⟩ | ⟨rfl, _⟩ | ⟨rfl, _⟩ <;> decide

theorem encodeBytes_reads : Reads encodeBytes id fun bytes => Writable bytes.length := by
  intro first second firstWritable secondWritable left right same
  simp only [encodeBytes, List.append_assoc] at same
  obtain ⟨sameLength, rest⟩ := varInt_reads _ _ firstWritable secondWritable _ _ same
  exact List.append_inj rest sameLength

theorem encodeList_reads {Item View : Type} {encode : Item → Bytes} {view : Item → View}
    {valid : Item → Prop} (reads : Reads encode view valid) :
    Reads (encodeList encode) (List.map view) fun items => Writable items.length ∧ ∀ item ∈ items, valid item :=
  varInt_reads.counted reads

/-! Transactions. -/

def TxIn.strip (input : TxIn) : TxIn := { input with witness := [] }

theorem strip_eq (transaction : Transaction) :
    transaction.strip = { transaction with input := transaction.input.map TxIn.strip } := rfl

theorem outPoint_reads : Reads OutPoint.encode id fun _ => True := by
  have parts := (digest_reads.comap OutPoint.txid).append (littleEndian_uInt32_reads.comap OutPoint.vout)
  refine parts.mono (fun _ _ => ⟨trivial, trivial⟩) ?_
  intro first second _ _ same
  simp only [id_eq, Prod.mk.injEq] at same
  cases first
  cases second
  simp_all

theorem txIn_reads : Reads TxIn.encode TxIn.strip TxIn.Fits := by
  have parts := ((outPoint_reads.comap TxIn.previousOutput).append (encodeBytes_reads.comap TxIn.scriptSig)).append
    (littleEndian_uInt32_reads.comap TxIn.sequence)
  refine parts.mono (fun _ fits => ⟨⟨trivial, fits.1⟩, trivial⟩) ?_
  intro first second _ _ same
  simp only [id_eq, Prod.mk.injEq] at same
  cases first
  cases second
  simp_all [TxIn.strip]

theorem txOut_reads : Reads TxOut.encode id fun output => Writable output.scriptPubkey.length := by
  have parts := (littleEndian_uInt64_reads.comap TxOut.value).append (encodeBytes_reads.comap TxOut.scriptPubkey)
  refine parts.mono (fun _ fits => ⟨trivial, fits⟩) ?_
  intro first second _ _ same
  simp only [id_eq, Prod.mk.injEq] at same
  cases first
  cases second
  simp_all

theorem encodeVersion_reads : Reads Transaction.encodeVersion Transaction.version fun _ => True := by
  refine (littleEndian_uInt32_reads.comap fun transaction : Transaction => transaction.version.toUInt32).mono
    (fun _ _ => trivial) ?_
  intro first second _ _ same
  exact congrArg Int32.ofUInt32 same

theorem inputs_reads : Reads (fun transaction : Transaction => encodeList TxIn.encode transaction.input)
    (fun transaction => transaction.input.map TxIn.strip) Transaction.Fits :=
  ((encodeList_reads txIn_reads).comap Transaction.input).mono (fun _ fits => fits.inputs)
    fun _ _ _ _ same => same

theorem outputs_reads : Reads (fun transaction : Transaction => encodeList TxOut.encode transaction.output)
    Transaction.output Transaction.Fits := by
  refine ((encodeList_reads txOut_reads).comap Transaction.output).mono (fun _ fits => fits.outputs) ?_
  intro first second _ _ same
  simpa using same

theorem lockTime_reads : Reads (fun transaction : Transaction => littleEndian 4 transaction.lockTime.toNat)
    Transaction.lockTime fun _ => True :=
  (littleEndian_uInt32_reads.comap Transaction.lockTime).mono (fun _ _ => trivial) fun _ _ _ _ same => same

/-- Without its witnesses the encoding says all else of a transaction. -/
theorem encodeStripped_reads : Reads Transaction.encodeStripped Transaction.strip Transaction.Fits := by
  have parts := ((encodeVersion_reads.append inputs_reads).append outputs_reads).append lockTime_reads
  refine parts.mono (fun _ fits => ⟨⟨⟨trivial, fits⟩, fits⟩, trivial⟩) ?_
  intro first second _ _ same
  simp only [Prod.mk.injEq] at same
  rw [strip_eq, strip_eq, same.1.1.1, same.1.1.2, same.1.2, same.2]

theorem encodeWitness_reads : Reads encodeWitness id fun witness =>
    Writable witness.length ∧ ∀ item ∈ witness, Writable item.length := by
  refine (encodeList_reads encodeBytes_reads).mono (fun _ valid => valid) ?_
  intro first second _ _ same
  simpa using same

theorem eq_of_strip_and_witness {first second : List TxIn}
    (stripped : first.map TxIn.strip = second.map TxIn.strip)
    (witnesses : first.map TxIn.witness = second.map TxIn.witness) : first = second := by
  induction first generalizing second with
  | nil => exact (List.map_eq_nil_iff.mp stripped.symm).symm
  | cons input rest ih =>
      obtain ⟨other, others, rfl, sameStripped, sameOthers⟩ := List.map_eq_cons_iff.mp stripped.symm
      rw [List.map_cons, List.map_cons, List.cons.injEq] at witnesses
      obtain rfl := ih sameOthers.symm witnesses.2
      have sameInput : input = other := by
        cases input
        cases other
        simp_all [TxIn.strip]
      rw [sameInput]

/-- The inputs with their witnesses, which stand after the outputs. -/
theorem witnessed_eq {first second : Transaction} (firstFits : first.Fits) (secondFits : second.Fits)
    {left right : Bytes}
    (same : encodeList TxIn.encode first.input ++ (encodeList TxOut.encode first.output ++
        ((first.input.map fun input => encodeWitness input.witness).flatten ++
          (littleEndian 4 first.lockTime.toNat ++ left))) =
      encodeList TxIn.encode second.input ++ (encodeList TxOut.encode second.output ++
        ((second.input.map fun input => encodeWitness input.witness).flatten ++
          (littleEndian 4 second.lockTime.toNat ++ right)))) :
    first.input = second.input ∧ first.output = second.output ∧ first.lockTime = second.lockTime ∧
      left = right := by
  obtain ⟨stripped, same⟩ := inputs_reads first second firstFits secondFits _ _ same
  obtain ⟨sameOutput, same⟩ := outputs_reads first second firstFits secondFits _ _ same
  have sameLength : first.input.length = second.input.length := by
    simpa using congrArg List.length stripped
  have witnessReads := encodeWitness_reads.comap TxIn.witness
  obtain ⟨witnesses, same⟩ := witnessReads.flatten sameLength
    (fun input member => (firstFits.inputs.2 input member).2)
    (fun input member => (secondFits.inputs.2 input member).2) same
  obtain ⟨sameLock, sameRest⟩ := lockTime_reads first second trivial trivial _ _ same
  exact ⟨eq_of_strip_and_witness stripped witnesses, sameOutput, sameLock, sameRest⟩

theorem strip_of_noWitness {transaction : Transaction} (none : transaction.hasWitness = false) :
    transaction.strip = transaction := by
  simp only [Transaction.hasWitness, Bool.or_eq_false_iff, List.any_eq_false, Bool.not_eq_true',
    Bool.not_eq_false, List.isEmpty_iff] at none
  have same : transaction.input.map TxIn.strip = transaction.input := by
    refine (List.map_congr_left ?_).trans (List.map_id _)
    intro input member
    have empty := none.2 input member
    cases input
    simp_all [TxIn.strip]
  rw [strip_eq, same]

theorem inputs_ne_marker {transaction : Transaction} (fits : transaction.Fits)
    (none : transaction.hasWitness = false) {left right : Bytes} :
    encodeList TxIn.encode transaction.input ++ left ≠ 0 :: right := by
  simp only [Transaction.hasWitness, Bool.or_eq_false_iff, List.isEmpty_eq_false_iff] at none
  obtain ⟨head, rest, isCode, notZero⟩ :=
    varInt_head_ne_zero fits.inputs.1 (List.length_pos_iff.mpr none.1)
  intro same
  rw [encodeList, isCode, List.cons_append, List.cons_append, List.cons.injEq] at same
  exact notZero same.1

theorem encode_reads : Reads Transaction.encode id Transaction.Fits := by
  intro first second firstFits secondFits left right same
  unfold Transaction.encode at same
  by_cases firstMarked : first.hasWitness = true
  · by_cases secondMarked : second.hasWitness = true
    · simp only [firstMarked, secondMarked, if_true, List.append_assoc] at same
      obtain ⟨sameVersion, same⟩ := encodeVersion_reads first second trivial trivial _ _ same
      obtain ⟨sameInput, sameOutput, sameLock, sameRest⟩ :=
        witnessed_eq firstFits secondFits (List.append_cancel_left same)
      cases first
      cases second
      simp_all
    · rw [Bool.not_eq_true] at secondMarked
      simp only [firstMarked, secondMarked, if_true, Bool.false_eq_true, if_false,
        Transaction.encodeStripped, List.append_assoc] at same
      obtain ⟨_, same⟩ := encodeVersion_reads first second trivial trivial _ _ same
      exact absurd same.symm (inputs_ne_marker secondFits secondMarked)
  · rw [Bool.not_eq_true] at firstMarked
    by_cases secondMarked : second.hasWitness = true
    · simp only [firstMarked, secondMarked, if_true, Bool.false_eq_true, if_false,
        Transaction.encodeStripped, List.append_assoc] at same
      obtain ⟨_, same⟩ := encodeVersion_reads first second trivial trivial _ _ same
      exact absurd same (inputs_ne_marker firstFits firstMarked)
    · rw [Bool.not_eq_true] at secondMarked
      simp only [firstMarked, secondMarked, Bool.false_eq_true, if_false] at same
      obtain ⟨stripped, sameRest⟩ := encodeStripped_reads first second firstFits secondFits left right same
      rw [strip_of_noWitness firstMarked, strip_of_noWitness secondMarked] at stripped
      exact ⟨stripped, sameRest⟩

theorem transaction_encode_injOn : Set.InjOn Transaction.encode {transaction | transaction.Fits} :=
  fun _ firstFits _ secondFits same => encode_reads.view_eq firstFits secondFits same

/-! Whole blocks. What is written out is longer than any of its parts. -/

theorem le_encodeList {Item : Type} {encode : Item → Bytes} {items : List Item} {item : Item}
    (member : item ∈ items) : (encode item).length ≤ (encodeList encode items).length := by
  have part : (encode item).Sublist (items.map encode).flatten :=
    List.sublist_flatten_of_mem (List.mem_map_of_mem member)
  exact part.length_le.trans (by rw [encodeList, List.length_append]; omega)

theorem length_le_encodeList {Item : Type} {encode : Item → Bytes} (nonempty : ∀ item, encode item ≠ [])
    (items : List Item) : items.length ≤ (encodeList encode items).length := by
  have flattened : items.length ≤ (items.map encode).flatten.length := by
    induction items with
    | nil => simp
    | cons item rest ih =>
        have positive := List.length_pos_iff.mpr (nonempty item)
        simp only [List.length_cons, List.map_cons, List.flatten_cons, List.length_append]
        omega
  exact flattened.trans (by rw [encodeList, List.length_append]; omega)

theorem length_le_encodeBytes (bytes : Bytes) : bytes.length ≤ (encodeBytes bytes).length := by
  rw [encodeBytes, List.length_append]
  omega

theorem varInt_nonempty (number : Nat) : varInt number ≠ [] := by
  unfold varInt
  split
  · simp [littleEndian]
  · split
    · simp
    · split <;> simp

theorem encodeBytes_nonempty (bytes : Bytes) : encodeBytes bytes ≠ [] := by
  simp [encodeBytes, varInt_nonempty]

theorem txIn_encode_nonempty (input : TxIn) : input.encode ≠ [] := by
  simp [TxIn.encode, encodeBytes_nonempty]

theorem txOut_encode_nonempty (output : TxOut) : output.encode ≠ [] := by
  simp [TxOut.encode, encodeBytes_nonempty]

theorem Writable.of_le {length bound : Nat} (writable : Writable bound) (short : length ≤ bound) :
    Writable length :=
  Nat.lt_of_le_of_lt short writable

theorem encodeStripped_le (transaction : Transaction) :
    transaction.encodeStripped.length ≤ transaction.encode.length := by
  unfold Transaction.encode Transaction.encodeStripped
  split
  · simp only [List.length_append]
    omega
  · exact Nat.le_refl _

theorem witness_fits {transaction : Transaction} (short : Writable transaction.encode.length) {input : TxIn}
    (member : input ∈ transaction.input) :
    Writable input.witness.length ∧ ∀ item ∈ input.witness, Writable item.length := by
  by_cases marked : transaction.hasWitness = true
  · have part : (encodeWitness input.witness).length ≤ transaction.encode.length := by
      have within : (encodeWitness input.witness).Sublist
          (transaction.input.map fun input => encodeWitness input.witness).flatten :=
        List.sublist_flatten_of_mem (List.mem_map_of_mem member)
      refine within.length_le.trans ?_
      simp only [Transaction.encode, marked, if_true, List.length_append]
      omega
    refine ⟨short.of_le ((length_le_encodeList encodeBytes_nonempty _).trans part), ?_⟩
    intro item isItem
    exact short.of_le ((length_le_encodeBytes item).trans ((le_encodeList isItem).trans part))
  · simp only [Transaction.hasWitness, Bool.or_eq_true, List.any_eq_true, not_or, not_exists, not_and,
      Bool.not_eq_true', Bool.not_eq_false, List.isEmpty_iff] at marked
    rw [marked.2 input member]
    exact ⟨by simp [Writable], by simp⟩

theorem transaction_fits {transaction : Transaction} (short : Writable transaction.encode.length) :
    transaction.Fits := by
  have stripped := encodeStripped_le transaction
  rw [Transaction.encodeStripped] at stripped
  simp only [List.length_append] at stripped
  constructor
  · have inputs : (encodeList TxIn.encode transaction.input).length ≤ transaction.encode.length := by omega
    refine ⟨short.of_le ((length_le_encodeList txIn_encode_nonempty _).trans inputs), ?_⟩
    intro input member
    refine ⟨short.of_le ?_, witness_fits short member⟩
    have script : input.scriptSig.length ≤ input.encode.length := by
      have bytes := length_le_encodeBytes input.scriptSig
      simp only [TxIn.encode, List.length_append]
      omega
    exact script.trans ((le_encodeList member).trans inputs)
  · have outputs : (encodeList TxOut.encode transaction.output).length ≤ transaction.encode.length := by omega
    refine ⟨short.of_le ((length_le_encodeList txOut_encode_nonempty _).trans outputs), ?_⟩
    intro output member
    have script : output.scriptPubkey.length ≤ output.encode.length := by
      have bytes := length_le_encodeBytes output.scriptPubkey
      simp only [TxOut.encode, List.length_append]
      omega
    exact short.of_le (script.trans ((le_encodeList member).trans outputs))

theorem transaction_encode_nonempty (transaction : Transaction) : transaction.encode ≠ [] := by
  have positive : 0 < transaction.encodeStripped.length := by
    simp only [Transaction.encodeStripped, Transaction.encodeVersion, List.length_append, littleEndian_length]
    omega
  exact List.length_pos_iff.mp (Nat.lt_of_lt_of_le positive (encodeStripped_le transaction))

theorem block_fits {block : Block} (short : Writable block.encode.length) : block.Fits := by
  have list : (encodeList Transaction.encode block.txdata).length ≤ block.encode.length := by
    rw [Block.encode, List.length_append]
    omega
  constructor
  · exact short.of_le ((length_le_encodeList transaction_encode_nonempty _).trans list)
  · intro transaction member
    exact transaction_fits (short.of_le ((le_encodeList member).trans list))

theorem header_encode_length (header : BlockHeader) : header.encode.length = 80 := by
  simp [BlockHeader.encode, header.prevBlockhash.2, header.merkleRoot.2]

/-- The bytes of a block determine it. -/
theorem block_encode_injective {first second : Block} (short : Writable first.encode.length)
    (same : first.encode = second.encode) : first = second := by
  have firstFits := block_fits short
  have secondFits := block_fits (same ▸ short)
  simp only [Block.encode] at same
  obtain ⟨headers, lists⟩ := List.append_inj same (by rw [header_encode_length, header_encode_length])
  have sameTransactions := (encodeList_reads encode_reads).view_eq
    ⟨firstFits.count, firstFits.transactions⟩ ⟨secondFits.count, secondFits.transactions⟩ lists
  simp only [List.map_id] at sameTransactions
  have sameHeader := encode_header_injective headers
  cases first
  cases second
  simp_all

end BtcRpcProxy.Blocks
