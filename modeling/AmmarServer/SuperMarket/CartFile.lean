import AmmarServer.SuperMarket.State

/-! What `serializeCartStream` writes is what `parseCartStream` reads. -/

namespace AmmarServer.SuperMarket
open CString Bytes TextFile PercentCoding

/-- An item whose line is read back. -/
structure Storable (it : Item) : Prop where
  id_ne : it.id ≠ []
  id_plain : ∀ c ∈ it.id, isSpace c = false ∧ c ≠ 0
  id_le : it.id.length ≤ 16
  name_ne : it.name ≠ []
  name_nonzero : 0 ∉ it.name
  name_le : it.name.length ≤ MAX_NAME_LEN * 4

structure StorableCart (cart : Cart) : Prop where
  items : ∀ it ∈ cart.items, Storable it
  items_le : cart.items.length ≤ MAX_ITEMS
  title_nonzero : 0 ∉ cart.title
  title_le : cart.title.length ≤ MAX_TITLE_LEN * 4
  title_ne : cart.title ≠ ascii "-"

/-! The words at the start of the lines. -/

theorem rev_eq : ascii "REV " = [82, 69, 86, 32] := by decide

theorem name_eq : ascii "NAME " = [78, 65, 77, 69, 32] := by decide

theorem item_eq : ascii "ITEM " = [73, 84, 69, 77, 32] := by decide

section
variable (s : List UInt8)

theorem rev_isPrefixOf : (ascii "REV ").isPrefixOf (ascii "REV " ++ s) = true :=
  List.isPrefixOf_iff_prefix.mpr (List.prefix_append ..)

theorem name_isPrefixOf :
    (ascii "REV ").isPrefixOf (ascii "NAME " ++ s) = false ∧
      (ascii "NAME ").isPrefixOf (ascii "NAME " ++ s) = true := by
  refine ⟨?_, List.isPrefixOf_iff_prefix.mpr (List.prefix_append ..)⟩
  rw [rev_eq, name_eq]
  rfl

theorem item_isPrefixOf :
    (ascii "REV ").isPrefixOf (ascii "ITEM " ++ s) = false ∧
      (ascii "NAME ").isPrefixOf (ascii "ITEM " ++ s) = false ∧
      (ascii "ITEM ").isPrefixOf (ascii "ITEM " ++ s) = true := by
  refine ⟨?_, ?_, List.isPrefixOf_iff_prefix.mpr (List.prefix_append ..)⟩
  · rw [rev_eq, item_eq]
    rfl
  · rw [name_eq, item_eq]
    rfl

end

/-! Each line. -/

section
variable {cart : Cart} (read : Cart × Bool)

theorem parse_revLine (cart : Cart) :
    parseLine read (revLine cart) = ({ read.1 with rev := cart.rev }, true) := by
  have hnumber : strtoul (decimal cart.rev.toNat) = cart.rev.toNat := by
    have hlt : cart.rev.toNat < 2 ^ 64 := lt_trans cart.rev.toNat_lt (by decide)
    have h := @strtoul_decimal _ hlt [] fun c hc => by cases hc
    rwa [List.append_nil] at h
  unfold parseLine revLine
  simp only [rev_isPrefixOf, if_true]
  rw [show (ascii "REV " ++ decimal cart.rev.toNat).drop 4 = decimal cart.rev.toNat from
    List.drop_left' (by decide), hnumber, UInt32.ofNat_toNat]

theorem parse_titleLine (h : StorableCart cart) :
    parseLine read (titleLine cart) = ({ read.1 with title := cart.title }, true) := by
  have htitle := h.title_le
  unfold parseLine titleLine
  simp only [name_isPrefixOf, if_true, Bool.false_eq_true, if_false]
  rw [List.drop_left' (by decide)]
  by_cases hne : cart.title = []
  · have hdash : cstring (decode (TITLE_BUF_SIZE - 1) (ascii "-")) = ascii "-" := by
      decide
    rw [if_neg (not_not.mpr hne), hdash, if_pos rfl, hne]
  · rw [if_pos hne, decode_encode (by unfold TITLE_BUF_SIZE MAX_TITLE_LEN at *; omega)
      (by unfold TITLE_BUF_SIZE MAX_TITLE_LEN at *; omega), cstring_of_notMem h.title_nonzero,
      if_neg h.title_ne]

theorem plain_of_isCode {c : UInt8} (hc : isCode c = true) :
    isSpace c = false ∧ isNewline c = false ∧ c ≠ 0 := by
  revert c
  apply forall_byte
  decide +kernel

theorem scan_itemLine {it : Item} (h : Storable it) :
    scanItem (it.id ++ ascii " " ++ decimal it.qty.toNat ++ ascii " " ++
      ascii (if it.checked then "1" else "0") ++ ascii " " ++ encode (NAME_BUF_SIZE * 3) it.name) =
      some it := by
  have hspace : ascii " " = [32] := by decide
  have hstop : ∀ s : List UInt8, ∀ c ∈ (32 :: s).head?, isSpace c = true := by
    intro s c hc
    rw [← Option.some.inj hc]
    rfl
  have hchecked : ∀ b : Bool, ascii (if b then "1" else "0") ≠ [] ∧
      (∀ c ∈ ascii (if b then "1" else "0"), isSpace c = false) ∧
      (ascii (if b then "1" else "0")).length ≤ 3 ∧
      decide (strtoul (ascii (if b then "1" else "0")) ≠ 0) = b := by decide +kernel
  obtain ⟨hne, hplain, hfits, hread⟩ := hchecked it.checked
  have hqty : it.qty.toNat < 10 ^ 15 := lt_trans it.qty.toNat_lt (by decide)
  have hnumber : strtoul (decimal it.qty.toNat) = it.qty.toNat := by
    have hlt : it.qty.toNat < 2 ^ 64 := lt_trans it.qty.toNat_lt (by decide)
    have h := @strtoul_decimal _ hlt [] fun c hc => by cases hc
    rwa [List.append_nil] at h
  have hname := h.name_le
  have hlength := length_encode_le (NAME_BUF_SIZE * 3) it.name
  have hcode : ∀ c ∈ encode (NAME_BUF_SIZE * 3) it.name, isSpace c = false :=
    fun c hc => (plain_of_isCode (isCode_encode _ _ c hc)).1
  -- one word after the other, each behind the space that ends the one before
  have hid : ∀ s, scanWord 16 (it.id ++ 32 :: s) = some (it.id, 32 :: s) := fun s =>
    scanWord_append h.id_ne (fun c hc => (h.id_plain c hc).1) h.id_le (hstop s)
  have hqty : ∀ s, scanWord 15 (32 :: (decimal it.qty.toNat ++ 32 :: s)) =
      some (decimal it.qty.toNat, 32 :: s) := fun s =>
    (scanWord_space 15 rfl _).trans <| scanWord_append (decimal_ne_nil _)
      (fun c hc => (plain_of_isDigit (isDigit_decimal c hc)).1)
      (decimal_length (by decide) hqty) (hstop s)
  have hmark : ∀ s, scanWord 3 (32 :: (ascii (if it.checked then "1" else "0") ++ 32 :: s)) =
      some (ascii (if it.checked then "1" else "0"), 32 :: s) := fun s =>
    (scanWord_space 3 rfl _).trans (scanWord_append hne hplain hfits (hstop s))
  have hword : scanWord 1535 (32 :: encode (NAME_BUF_SIZE * 3) it.name) =
      some (encode (NAME_BUF_SIZE * 3) it.name, []) := by
    have hroom : 3 < NAME_BUF_SIZE * 3 := by decide
    have hlast := @scanWord_append 1535 _ [] (encode_ne_nil h.name_ne hroom) hcode
      (by unfold MAX_NAME_LEN at hname; omega) fun c hc => by cases hc
    rw [List.append_nil] at hlast
    exact (scanWord_space 1535 rfl _).trans hlast
  simp only [hspace, List.append_assoc, List.cons_append, List.nil_append]
  unfold scanItem
  simp only [hid, hqty, hmark, hword, Option.bind_some, Option.map_some]
  rw [hnumber, hread, UInt32.ofNat_toNat,
    decode_encode (by unfold NAME_BUF_SIZE MAX_NAME_LEN at *; omega)
      (by unfold NAME_BUF_SIZE MAX_NAME_LEN at *; omega),
    cstring_of_notMem h.name_nonzero, show ID_BUF_SIZE - 1 = 16 from rfl,
    List.take_of_length_le h.id_le]

theorem parse_itemLine {it : Item} (h : Storable it) (hroom : read.1.items.length < MAX_ITEMS) :
    parseLine read (itemLine it) =
      ({ read.1 with items := read.1.items ++ [it] }, true) := by
  have hscan := scan_itemLine h
  have hline : itemLine it = ascii "ITEM " ++ (it.id ++ ascii " " ++ decimal it.qty.toNat ++
      ascii " " ++ ascii (if it.checked then "1" else "0") ++ ascii " " ++
      encode (NAME_BUF_SIZE * 3) it.name) := by
    unfold itemLine
    simp only [List.append_assoc]
  rw [hline]
  unfold parseLine
  simp only [item_isPrefixOf, if_true, Bool.false_eq_true, if_false]
  rw [List.drop_left' (by decide), hscan, if_neg (Nat.not_le_of_lt hroom)]

end

theorem parse_items {items : List Item} (hitems : ∀ it ∈ items, Storable it) (read : Cart × Bool)
    (hread : read.2 = true) (hroom : read.1.items.length + items.length ≤ MAX_ITEMS) :
    (items.map itemLine).foldl parseLine read =
      ({ read.1 with items := read.1.items ++ items }, true) := by
  induction items generalizing read with
  | nil =>
    rw [List.append_nil, ← hread]
    rfl
  | cons it items ih =>
    obtain ⟨hit, hitems⟩ := List.forall_mem_cons.mp hitems
    rw [List.length_cons] at hroom
    rw [List.map_cons, List.foldl_cons, parse_itemLine read hit (by omega),
      ih hitems _ rfl (by simp only [List.length_append, List.length_singleton]; omega)]
    rw [List.append_assoc]
    rfl

/-! The lines in the file. -/

/-- A line that `fgets` reads whole and that ends where it was ended. -/
structure WholeLine (line : List UInt8) : Prop where
  plain : ∀ c ∈ line, isNewline c = false ∧ c ≠ 0
  fits : line.length < LINE_SIZE - 1

theorem chomp_line {line : List UInt8} (h : WholeLine line) : chomp (line ++ [LF]) = line := by
  have hzero : 0 ∉ line ++ [LF] := by
    rw [List.mem_append, not_or]
    exact ⟨fun hcon => (h.plain 0 hcon).2 rfl, by decide⟩
  unfold chomp
  rw [cstring_of_notMem hzero, List.rdropWhile_concat_pos _ _ _ (by decide)]
  cases hlast : line.getLast? with
  | none =>
    rw [List.getLast?_eq_none_iff] at hlast
    rw [hlast]
    rfl
  | some c =>
    obtain ⟨s, rfl⟩ := List.getLast?_eq_some_iff.mp hlast
    have hc := (h.plain c (List.mem_append_right _ (List.mem_singleton_self c))).1
    exact List.rdropWhile_concat_neg _ _ _ (by simp [hc])

theorem plain_append {s t : List UInt8} (hs : ∀ c ∈ s, isNewline c = false ∧ c ≠ 0)
    (ht : ∀ c ∈ t, isNewline c = false ∧ c ≠ 0) :
    ∀ c ∈ s ++ t, isNewline c = false ∧ c ≠ 0 := by
  intro c hc
  rcases List.mem_append.mp hc with hc | hc
  · exact hs c hc
  · exact ht c hc

theorem plain_decimal (n : ℕ) : ∀ c ∈ decimal n, isNewline c = false ∧ c ≠ 0 := by
  intro c hc
  obtain ⟨-, -, -, hlf, hcr, hzero⟩ := plain_of_isDigit (isDigit_decimal c hc)
  exact ⟨isNewline_eq_false_iff.mpr ⟨hcr, hlf⟩, hzero⟩

theorem plain_encode (room : ℕ) (s : List UInt8) :
    ∀ c ∈ encode room s, isNewline c = false ∧ c ≠ 0 :=
  fun c hc => (plain_of_isCode (isCode_encode room s c hc)).2

theorem plain_of_not_isSpace {c : UInt8} (hc : isSpace c = false) : isNewline c = false := by
  revert c
  apply forall_byte
  decide +kernel

theorem decimal_length_le (n : UInt32) : (decimal n.toNat).length ≤ 10 :=
  decimal_length (by decide) (lt_trans n.toNat_lt (by decide))

theorem wholeLine_rev (cart : Cart) : WholeLine (revLine cart) where
  plain := plain_append (by decide +kernel) (plain_decimal _)
  fits := by
    have hdecimal := decimal_length_le cart.rev
    unfold revLine LINE_SIZE
    rw [List.length_append, rev_eq]
    simp only [List.length_cons, List.length_nil]
    omega

theorem wholeLine_title {cart : Cart} (h : StorableCart cart) : WholeLine (titleLine cart) where
  plain := by
    refine plain_append (by decide +kernel) ?_
    split
    · exact plain_encode _ _
    · decide +kernel
  fits := by
    have htitle := h.title_le
    have hencoded := length_encode_le (TITLE_BUF_SIZE * 3) cart.title
    have hdash : (ascii "-").length = 1 := by decide
    unfold titleLine LINE_SIZE
    unfold MAX_TITLE_LEN at htitle
    rw [List.length_append, name_eq]
    split
    · simp only [List.length_cons, List.length_nil]
      omega
    · simp only [List.length_cons, List.length_nil, hdash]
      omega

theorem wholeLine_item {it : Item} (h : Storable it) : WholeLine (itemLine it) where
  plain := by
    have hid : ∀ c ∈ it.id, isNewline c = false ∧ c ≠ 0 :=
      fun c hc => ⟨plain_of_not_isSpace (h.id_plain c hc).1, (h.id_plain c hc).2⟩
    have hspace : ∀ c ∈ ascii " ", isNewline c = false ∧ c ≠ 0 := by decide +kernel
    have hchecked : ∀ b : Bool, ∀ c ∈ ascii (if b then "1" else "0"), isNewline c = false ∧ c ≠ 0 := by
      decide +kernel
    have hword : ∀ c ∈ ascii "ITEM ", isNewline c = false ∧ c ≠ 0 := by decide +kernel
    exact plain_append (plain_append (plain_append (plain_append (plain_append (plain_append
      (plain_append hword hid) hspace) (plain_decimal _)) hspace) (hchecked _)) hspace)
      (plain_encode _ _)
  fits := by
    have hid := h.id_le
    have hname := h.name_le
    have hdecimal := decimal_length_le it.qty
    have hencoded := length_encode_le (NAME_BUF_SIZE * 3) it.name
    have hspace : (ascii " ").length = 1 := by decide
    have hchecked : ∀ b : Bool, (ascii (if b then "1" else "0")).length = 1 := by decide
    unfold itemLine LINE_SIZE
    unfold MAX_NAME_LEN at hname
    simp only [List.length_append, item_eq, List.length_cons, List.length_nil, hspace, hchecked]
    omega

theorem wholeLines {cart : Cart} (h : StorableCart cart) :
    ∀ line ∈ cartLines cart, WholeLine line := by
  intro line hline
  rcases List.mem_cons.mp hline with rfl | hline
  · exact wholeLine_rev cart
  · rcases List.mem_cons.mp hline with rfl | hline
    · exact wholeLine_title h
    · obtain ⟨it, hit, rfl⟩ := List.mem_map.mp hline
      exact wholeLine_item (h.items it hit)

/-- A cart is read back as it was written. -/
theorem parse_serialize {cart : Cart} (h : StorableCart cart) :
    parseCartStream (serializeCartStream cart) = (cart, true) := by
  have hwhole := wholeLines h
  have hfuel : (cartLines cart).length ≤ (serializeCartStream cart).length := by
    unfold serializeCartStream
    induction cartLines cart with
    | nil => exact Nat.le_refl 0
    | cons line lines ih =>
      rw [List.flatMap_cons]
      simp only [List.length_append, List.length_cons, List.length_nil]
      omega
  have hlines : (readLines (LINE_SIZE - 1) (serializeCartStream cart).length
      (serializeCartStream cart)).map chomp = cartLines cart := by
    have hread := @readLines_lines (LINE_SIZE - 1) (cartLines cart)
      (fun line hline => ⟨fun hcon => absurd ((hwhole line hline).plain LF hcon).1 (by decide),
        (hwhole line hline).fits⟩) _ hfuel
    unfold serializeCartStream at hread ⊢
    rw [hread, List.map_map]
    exact (List.map_congr_left fun line hline => chomp_line (hwhole line hline)).trans
      (List.map_id _)
  unfold parseCartStream
  rw [hlines, cartLines, List.foldl_cons, List.foldl_cons, parse_revLine, parse_titleLine _ h,
    parse_items h.items _ rfl (by simpa [Cart.empty] using h.items_le)]
  rfl

end AmmarServer.SuperMarket
