import Murage.ClientBucket.Quads

/-!
Owns the bucket of a text: that of the client whose address it spells, a bucket of its own when it
spells none; and that different clients have different buckets, and no other text one of theirs.

Does not own: the counters of a bucket.
-/

namespace Murage.ClientBucket

/-! ## What a text of groups has -/

variable {groups : List Nat} {texts : List Text}

theorem pieces_units (arePieces : Pieces HexGroup texts groups) :
    ∀ text ∈ texts, ∀ c ∈ text, isHexDigit c = true ∨ c = u '.' := by
  have ofGroups : ∀ {texts : List Text} {groups : List Nat}, List.Forall₂ HexGroup texts groups →
      ∀ text ∈ texts, ∀ c ∈ text, isHexDigit c = true ∨ c = u '.' :=
    fun areGroups text isText c isUnit =>
      Or.inl ((hextet_digits ((forall_hexGroup.1 areGroups).1 text isText)).2 c isUnit)
  cases arePieces with
  | groups areGroups => exact ofGroups areGroups
  | quad areGroups isQuad =>
    refine List.forall_mem_append.2 ⟨ofGroups areGroups, List.forall_mem_singleton.2 ?_⟩
    intro c isUnit
    rcases quad_units isQuad c isUnit with isDot | isDigit
    · exact Or.inr isDot
    · exact Or.inl ((isHexDigit_iff c).2 (Or.inl ((isDigit_iff c).1 isDigit)))

theorem join_units (arePieces : Pieces HexGroup texts groups) :
    ∀ c ∈ join (u ':') texts, isHexDigit c = true ∨ c = u ':' ∨ c = u '.' := by
  intro c isUnit
  rcases mem_join isUnit with isColon | ⟨text, isText, isIn⟩
  · exact Or.inr (Or.inl isColon)
  · exact (pieces_units arePieces text isText c isIn).imp_right Or.inr

variable {text : Text}

theorem bare_units (isBare : Bare HexGroup (Pieces HexGroup) text groups) :
    ∀ c ∈ text, isHexDigit c = true ∨ c = u ':' ∨ c = u '.' := by
  cases isBare with
  | full arePieces => exact join_units arePieces
  | compressed areFront areBack =>
    refine List.forall_mem_append.2 ⟨join_units (.groups areFront), ?_⟩
    exact List.forall_mem_cons.2 ⟨Or.inr (Or.inl rfl),
      List.forall_mem_cons.2 ⟨Or.inr (Or.inl rfl), join_units areBack⟩⟩

theorem pieces_length (arePieces : Pieces HexGroup texts groups) :
    groups.length ≤ texts.length + 1 := by
  cases arePieces with
  | groups areGroups =>
    rw [areGroups.length_eq]
    exact Nat.le_succ _
  | quad areGroups =>
    rw [List.length_append, List.length_append, areGroups.length_eq]
    exact Nat.le_refl _

theorem bare_colon (isBare : Bare HexGroup (Pieces HexGroup) text groups) : u ':' ∈ text := by
  cases isBare with
  | @full texts _ arePieces isWhole =>
    have isLong := pieces_length arePieces
    rw [isWhole] at isLong
    match texts with
    | [] => exact absurd isLong (by decide)
    | [_] => exact absurd isLong (by simp)
    | first :: next :: more =>
      rw [join_cons first (List.cons_ne_nil next more)]
      exact List.mem_append_right _ List.mem_cons_self
  | compressed => exact List.mem_append_right _ List.mem_cons_self

theorem digitOf_lt {c : UInt16} (isHex : isHexDigit c = true) : digitOf c < 16 := by
  rw [isHexDigit_iff] at isHex
  rw [digitOf]
  split
  · rename_i isDigit
    have isBounds := (isDigit_iff c).1 isDigit
    omega
  · rename_i notDigit
    rw [isDigit_iff] at notDigit
    omega

theorem numberOf_lt (areHex : ∀ c ∈ text, isHexDigit c = true) :
    numberOf 16 text < 16 ^ text.length := by
  induction text using List.reverseRecOn with
  | nil => exact Nat.one_pos
  | append_singleton text c ih =>
    obtain ⟨areFirst, isLast⟩ := List.forall_mem_append.1 areHex
    have isBelow := ih areFirst
    have isDigit := digitOf_lt (isLast c (List.mem_singleton_self c))
    rw [numberOf_snoc, List.length_append, List.length_singleton, Nat.pow_succ]
    omega

theorem hexGroup_lt {group : Nat} (isGroup : HexGroup text group) : group < 65536 := by
  obtain ⟨isHex, rfl⟩ := isGroup
  have isBelow := numberOf_lt (hextet_digits isHex).2
  rw [isHextet, Bool.and_eq_true, Bool.and_eq_true, decide_eq_true_iff, decide_eq_true_iff] at isHex
  exact Nat.lt_of_lt_of_le isBelow (Nat.pow_le_pow_right (Nat.succ_pos 15) isHex.1.2)

theorem groups_lt (areGroups : List.Forall₂ HexGroup texts groups) :
    ∀ group ∈ groups, group < 65536 := by
  obtain ⟨areHex, rfl⟩ := forall_hexGroup.1 areGroups
  intro group isGroup
  obtain ⟨text, isText, rfl⟩ := List.mem_map.1 isGroup
  exact hexGroup_lt ⟨areHex text isText, rfl⟩

theorem pieces_lt (arePieces : Pieces HexGroup texts groups) :
    ∀ group ∈ groups, group < 65536 := by
  cases arePieces with
  | groups areGroups => exact groups_lt areGroups
  | quad areGroups isQuad =>
    exact List.forall_mem_append.2 ⟨groups_lt areGroups, groups_lt (groupTexts_groups isQuad)⟩

theorem bare_address (isBare : Bare HexGroup (Pieces HexGroup) text groups) :
    groups.length = 8 ∧ ∀ group ∈ groups, group < 65536 := by
  cases isBare with
  | full arePieces isWhole => exact ⟨isWhole, pieces_lt arePieces⟩
  | compressed areFront areBack isMissing =>
    refine ⟨?_, List.forall_mem_append.2 ⟨List.forall_mem_append.2 ⟨groups_lt areFront, ?_⟩,
      pieces_lt areBack⟩⟩
    · rw [List.length_append, List.length_append, List.length_replicate]
      omega
    · intro group isZero
      rw [List.eq_of_mem_replicate isZero]
      decide

/-! ## Brackets and zones -/

theorem zoneless_spelled {text zone : Text} (noPercent : u '%' ∉ text) (isZone : Zone zone) :
    zoneless (text ++ zone) = text := by
  induction text with
  | nil =>
    cases isZone with
    | none => rfl
    | named isLine =>
      rw [List.nil_append, zoneless, if_pos]
      refine ⟨rfl, List.all_eq_true.2 fun c isUnit => ?_⟩
      rw [isLine c isUnit]
      rfl
  | cons c text ih =>
    rw [List.mem_cons, not_or] at noPercent
    rw [List.cons_append, zoneless, if_neg fun isPercent => noPercent.1 isPercent.1.symm,
      ih noPercent.2]

theorem zoneless_zone (text : Text) : ∃ zone, Zone zone ∧ text = zoneless text ++ zone := by
  induction text with
  | nil => exact ⟨[], .none, rfl⟩
  | cons c rest ih =>
    rw [zoneless]
    split
    · rename_i isZone
      obtain ⟨rfl, isLine⟩ := isZone
      refine ⟨u '%' :: rest, .named fun c isUnit => ?_, rfl⟩
      have isWithin := List.all_eq_true.1 isLine c isUnit
      rw [Bool.not_eq_true'] at isWithin
      exact isWithin
    · obtain ⟨zone, isZone, isRest⟩ := ih
      exact ⟨zone, isZone, congrArg (c :: ·) isRest⟩

theorem unbracketed_plain (notBracket : text.head? ≠ some (u '[')) :
    unbracketed text = text := by
  cases text with
  | nil => rfl
  | cons c rest =>
    rw [unbracketed]
    exact if_neg fun isBracketed => notBracket (congrArg some isBracketed.1)

theorem unbracketed_wrapped (isLine : ∀ c ∈ text, endsLine c = false) :
    unbracketed (u '[' :: (text ++ [u ']'])) = text := by
  rw [unbracketed, List.getLast?_concat, List.dropLast_concat, if_pos]
  refine ⟨rfl, rfl, List.all_eq_true.2 fun c isUnit => ?_⟩
  rw [isLine c isUnit]
  rfl

theorem unbracketed_cases (text : Text) :
    unbracketed text = text ∨ text = u '[' :: (unbracketed text ++ [u ']']) := by
  cases text with
  | nil => exact Or.inl rfl
  | cons c rest =>
    rw [unbracketed]
    split
    · rename_i isBracketed
      obtain ⟨rfl, isLast, _⟩ := isBracketed
      rw [List.dropLast_append_getLast? _ isLast]
      exact Or.inr rfl
    · exact Or.inl rfl

/-! ## A text that spells an address -/

theorem spelled_units (isBare : Bare SpellsGroup (Pieces SpellsGroup) text groups) :
    ∀ c ∈ text, isAnyHexDigit c = true ∨ c = u ':' ∨ c = u '.' := by
  intro c isUnit
  rcases bare_units (bare_lower.1 isBare) _ (List.mem_map_of_mem isUnit) with isHex | isColon | isDot
  · exact Or.inl ((isHexDigit_lowerUnit c).1 isHex)
  · exact Or.inr (Or.inl (lowerUnit_colon.1 isColon))
  · exact Or.inr (Or.inr ((lowerUnit_quad (Or.inl isDot)).symm.trans isDot))

/-- What a text of groups is made of is below a letter past `f` and no bracket, percent sign or end
of a line. -/
theorem unit_plain {c : UInt16} (isUnit : isAnyHexDigit c = true ∨ c = u ':' ∨ c = u '.') :
    c < 0x80 ∧ c ≠ u '%' ∧ c ≠ u '[' ∧ endsLine c = false := by
  have isSmall : c.toNat < 0x5b ∧ 0x2d < c.toNat ∨ 0x60 < c.toNat ∧ c.toNat < 0x67 := by
    rcases isUnit with isHex | rfl | rfl
    · rw [isAnyHexDigit_iff, isHexDigit_iff] at isHex
      omega
    · exact Or.inl (by decide)
    · exact Or.inl (by decide)
  have notUnit : ∀ d : UInt16, ¬ (d.toNat < 0x5b ∧ 0x2d < d.toNat ∨ 0x60 < d.toNat ∧ d.toNat < 0x67) →
      c ≠ d := fun d isOther isSame => isOther (isSame ▸ isSmall)
  refine ⟨?_, notUnit _ (by decide), notUnit _ (by decide), ?_⟩
  · rw [UInt16.lt_iff_toNat_lt]
    show c.toNat < 0x80
    omega
  · rw [endsLine, decide_eq_false (notUnit 0x0a (by decide)),
      decide_eq_false (notUnit 0x0d (by decide)), decide_eq_false (notUnit 0x2028 (by decide)),
      decide_eq_false (notUnit 0x2029 (by decide))]
    rfl

theorem spelled_colon (isBare : Bare SpellsGroup (Pieces SpellsGroup) text groups) :
    u ':' ∈ text := by
  obtain ⟨c, isUnit, isColon⟩ := List.mem_map.1 (bare_colon (bare_lower.1 isBare))
  exact lowerUnit_colon.1 isColon ▸ isUnit

theorem spelled_percent (isBare : Bare SpellsGroup (Pieces SpellsGroup) text groups) :
    u '%' ∉ text :=
  fun isPercent => (unit_plain (spelled_units isBare _ isPercent)).2.1 rfl

theorem zone_line {zone : Text} (isZone : Zone zone) : ∀ c ∈ zone, endsLine c = false := by
  cases isZone with
  | none => exact fun c isUnit => nomatch isUnit
  | named isLine => exact List.forall_mem_cons.2 ⟨rfl, isLine⟩

theorem ipv4_none (isColon : u ':' ∈ text) : ipv4 text = none := by
  cases isRead : ipv4 text with
  | none => rfl
  | some octets => exact absurd isColon (quad_uncoloned (ipv4_iff.1 isRead))

theorem bucket_of_bare (casing : Casing) {address text : Text}
    (isBare : Bare SpellsGroup (Pieces SpellsGroup) text groups) (isColon : u ':' ∈ address)
    (isText : zoneless (unbracketed address) = text) :
    clientBucket casing (some address) = groupsText groups := by
  have isAscii : ∀ c ∈ text, c < 0x80 := fun c isUnit => (unit_plain (spelled_units isBare c isUnit)).1
  have isLower := bare_lower.1 isBare
  have hasColon : (text.map lowerUnit).contains (u ':') = true :=
    List.contains_iff_mem.2 (bare_colon isLower)
  rw [clientBucket]
  dsimp only
  rw [ipv4_none isColon]
  dsimp only
  rw [isText, casing.ascii text isAscii, if_pos hasColon, ipv6_iff.2 isLower]

theorem groupsText_client (address : Ipv6) :
    groupsText address.groups = (Address.ipv6 address).client.bucket := by
  have isFirst : (address.groups.take 5).all (· = 0) = true ↔ address.groups.take 5 = [0, 0, 0, 0, 0] := by
    have isFive : (address.groups.take 5).length = 5 := by
      rw [List.length_take, address.isWhole]
      rfl
    have areZeros : [0, 0, 0, 0, 0] = List.replicate 5 0 := rfl
    rw [areZeros, List.eq_replicate_iff, List.all_eq_true]
    simp only [decide_eq_true_iff, isFive, true_and]
  have isLast : ∀ n : Nat, n >>> 8 = n / 256 ∧ n &&& 255 = n % 256 := fun n =>
    ⟨Nat.shiftRight_eq_div_pow n 8, Nat.and_two_pow_sub_one_eq_mod n 8⟩
  rw [groupsText, Address.client]
  by_cases isMapped : address.isMapped
  · rw [if_pos isMapped, if_pos, Client.bucket, Ipv6.lastOctets, (isLast _).1, (isLast _).2,
      (isLast _).1, (isLast _).2]
    rw [Bool.and_eq_true, isFirst, decide_eq_true_iff]
    exact isMapped
  · rw [if_neg isMapped, if_neg, Client.bucket, ip6Text, ip6Text, List.take_take]
    · rfl
    · rw [Bool.and_eq_true, isFirst, decide_eq_true_iff]
      exact isMapped

/-- **A text that spells an address has the bucket of its client.** -/
theorem bucket_of_spelled (casing : Casing) {address : Address} (isSpelled : Spells text address) :
    clientBucket casing (some text) = address.client.bucket := by
  cases isSpelled with
  | ipv4 isQuad =>
    rw [clientBucket]
    dsimp only
    rw [ipv4_iff.2 isQuad]
    rfl
  | @bare text zone address areGroups isZone =>
    have isColon := spelled_colon areGroups
    have noPercent := spelled_percent areGroups
    have notBracket : (text ++ zone).head? ≠ some (u '[') := by
      obtain ⟨c, rest, rfl⟩ := List.exists_cons_of_ne_nil (List.ne_nil_of_mem isColon)
      have isUnit := unit_plain (spelled_units areGroups c List.mem_cons_self)
      exact fun isBracket => isUnit.2.2.1 (Option.some.inj isBracket)
    rw [← groupsText_client]
    refine bucket_of_bare casing areGroups (List.mem_append_left _ isColon) ?_
    rw [unbracketed_plain notBracket, zoneless_spelled noPercent isZone]
  | @bracketed text zone address areGroups isZone =>
    have isColon := spelled_colon areGroups
    have noPercent := spelled_percent areGroups
    have isLine : ∀ c ∈ text ++ zone, endsLine c = false := List.forall_mem_append.2
      ⟨fun c isUnit => (unit_plain (spelled_units areGroups c isUnit)).2.2.2, zone_line isZone⟩
    rw [← groupsText_client]
    refine bucket_of_bare casing areGroups (List.mem_cons_of_mem _ (List.mem_append_left _
      (List.mem_append_left _ isColon))) ?_
    rw [unbracketed_wrapped isLine, zoneless_spelled noPercent isZone]

/-! ## A text that spells none -/

theorem bare_of_read (casing : Casing) (isRead : ipv6 (casing.toLowerCase text) = some groups) :
    Bare SpellsGroup (Pieces SpellsGroup) text groups := by
  have isBare := ipv6_iff.1 isRead
  have isAscii : ∀ c ∈ text, c < 0x80 := by
    intro c isUnit
    by_contra notAscii
    obtain ⟨d, isIn, notHex, notColon, notDot⟩ :=
      casing.beyond text ⟨c, isUnit, UInt16.not_lt.1 notAscii⟩
    rcases bare_units isBare d isIn with isHex | isColon | isDot
    · rw [notHex] at isHex
      cases isHex
    · exact notColon isColon
    · exact notDot isDot
  rw [casing.ascii text isAscii] at isBare
  exact bare_lower.2 isBare

theorem bucket_of_other (casing : Casing) (notSpelled : ∀ address, ¬ Spells text address) :
    clientBucket casing (some text) = units "raw=" ++ text := by
  rw [clientBucket]
  dsimp only
  cases isQuad : ipv4 text with
  | some octets =>
    have isSpelled := ipv4_iff.1 isQuad
    obtain ⟨a, b, c, d, rfl, isA, isB, isC, isD⟩ := quad_octets isSpelled
    refine absurd (Spells.ipv4 ?_) (notSpelled (.ipv4 ⟨[a, b, c, d], rfl, ?_⟩))
    · exact isSpelled
    · simp [isA, isB, isC, isD]
  | none =>
    dsimp only
    split
    · rename_i groups isRead
      split at isRead
      · have isBare := bare_of_read casing isRead
        obtain ⟨isWhole, areGroups⟩ := bare_address (bare_lower.1 isBare)
        obtain ⟨zone, isZone, isText⟩ := zoneless_zone (unbracketed text)
        rcases unbracketed_cases text with isPlain | isBracketed
        · refine absurd ?_ (notSpelled (.ipv6 ⟨groups, isWhole, areGroups⟩))
          rw [← isPlain, isText]
          exact .bare isBare isZone
        · refine absurd ?_ (notSpelled (.ipv6 ⟨groups, isWhole, areGroups⟩))
          rw [isBracketed, isText]
          exact .bracketed isBare isZone
      · cases isRead
    · rfl

/-! ## Different clients -/

theorem numberText_units {base n : Nat} (isBase : 1 < base) (isSmall : base ≤ 16) :
    ∀ c ∈ numberText base n, isHexDigit c = true := by
  intro c isUnit
  rw [numberText] at isUnit
  split at isUnit
  · rw [List.mem_singleton.1 isUnit]
    rfl
  · obtain ⟨digit, isDigit, rfl⟩ := List.mem_map.1 isUnit
    exact isHexDigit_unitOf digit
      (Nat.lt_of_lt_of_le (Nat.digits_lt_base isBase (List.mem_reverse.1 isDigit)) isSmall)

theorem numberOf_zeros (base count : Nat) (text : Text) :
    numberOf base (List.replicate count (u '0') ++ text) = numberOf base text := by
  induction count with
  | zero => rfl
  | succ count ih =>
    rw [← ih, numberOf, numberOf, List.replicate_succ, List.cons_append,
      List.foldl_cons, Nat.zero_mul]
    rfl

theorem join_numbers {separator : UInt16} {base : Nat} {write : Nat → Text}
    (isRead : ∀ n, numberOf base (write n) = n) (notThere : ∀ n, separator ∉ write n)
    {numbers others : List Nat} (isSome : numbers ≠ []) (areSome : others ≠ [])
    (isSame : join separator (numbers.map write) = join separator (others.map write)) :
    numbers = others := by
  have areParts : ∀ list : List Nat, list ≠ [] →
      (join separator (list.map write)).splitOn separator = list.map write := fun list isSome => by
    refine splitOn_parts (fun part isPart => ?_) fun isEmpty => isSome (List.map_eq_nil_iff.1 isEmpty)
    obtain ⟨n, _, rfl⟩ := List.mem_map.1 isPart
    exact notThere n
  have areRead : ∀ list : List Nat, (list.map write).map (numberOf base) = list := fun list => by
    rw [List.map_map]
    exact (List.map_congr_left fun n _ => isRead n).trans (List.map_id list)
  have areSame := congrArg (List.splitOn separator) isSame
  rw [areParts numbers isSome, areParts others areSome] at areSame
  rw [← areRead numbers, areSame, areRead]

theorem ip4Text_inj {octets others : List Nat} (isSome : octets ≠ []) (areSome : others ≠ [])
    (isSame : ip4Text octets = ip4Text others) : octets = others := by
  refine join_numbers (numberOf_numberText (by decide) (by decide)) (fun n isDot => ?_) isSome
    areSome (List.append_cancel_left isSame)
  exact (hexDigit_spec (numberText_units (by decide) (by decide) _ isDot)).2 rfl

theorem ip6Text_inj {groups others : List Nat} (isSome : groups.take 4 ≠ [])
    (areSome : others.take 4 ≠ []) (isSame : ip6Text groups = ip6Text others) :
    groups.take 4 = others.take 4 := by
  have isJoined := List.append_cancel_left (List.append_cancel_right isSame)
  have isRead : ∀ n, numberOf 16 (padStart4 (numberText 16 n)) = n := fun n => by
    rw [padStart4, numberOf_zeros, numberOf_numberText (by decide) (Nat.le_refl 16)]
  refine join_numbers isRead (fun n isColon => ?_) isSome areSome isJoined
  rcases List.mem_append.1 isColon with isZero | isUnit
  · exact absurd (List.eq_of_mem_replicate isZero) (by decide)
  · exact (hexDigit_spec (numberText_units (by decide) (Nat.le_refl 16) _ isUnit)).1 rfl

theorem ip4Text_ne_ip6Text (octets groups : List Nat) : ip4Text octets ≠ ip6Text groups := by
  intro isSame
  have isThird := congrArg (·[2]?) isSame
  exact absurd (Option.some.inj isThird) (by decide)

theorem client_cases (address : Address) :
    (∃ octets, octets ≠ [] ∧ address.client = .ipv4 octets) ∨
      ∃ groups, groups.take 4 ≠ [] ∧ groups.take 4 = groups ∧ address.client = .ipv6 groups := by
  cases address with
  | ipv4 address =>
    refine Or.inl ⟨address.octets, fun isEmpty => ?_, rfl⟩
    have isQuad := address.isQuad
    rw [isEmpty] at isQuad
    cases isQuad
  | ipv6 address =>
    by_cases isMapped : address.isMapped
    · exact Or.inl ⟨address.lastOctets, List.cons_ne_nil _ _, if_pos isMapped⟩
    · have isFirst : (address.groups.take 4).length = 4 := by
        rw [List.length_take, address.isWhole]
        rfl
      have isTaken : (address.groups.take 4).take 4 = address.groups.take 4 := by
        rw [List.take_take]
        rfl
      refine Or.inr ⟨address.groups.take 4, fun isEmpty => ?_, isTaken, if_neg isMapped⟩
      rw [isTaken] at isEmpty
      rw [isEmpty] at isFirst
      cases isFirst

/-- **A bucket is that of one client.** -/
theorem bucket_inj {address other : Address}
    (isSame : address.client.bucket = other.client.bucket) : address.client = other.client := by
  rcases client_cases address with ⟨octets, isSome, isClient⟩ | ⟨groups, isSome, isFirst, isClient⟩
  · rcases client_cases other with ⟨others, areSome, isOther⟩ | ⟨others, areSome, _, isOther⟩
    · rw [isClient, isOther] at isSame ⊢
      exact congrArg Client.ipv4 (ip4Text_inj isSome areSome isSame)
    · rw [isClient, isOther] at isSame
      exact absurd isSame (ip4Text_ne_ip6Text octets others)
  · rcases client_cases other with ⟨others, areSome, isOther⟩ | ⟨others, areSome, isLast, isOther⟩
    · rw [isClient, isOther] at isSame
      exact absurd isSame.symm (ip4Text_ne_ip6Text others groups)
    · rw [isClient, isOther] at isSame ⊢
      rw [← isFirst, ← isLast]
      exact congrArg Client.ipv6 (ip6Text_inj isSome areSome isSame)

theorem client_ne {address other : Ipv6} (isOther : address.groups.take 4 ≠ other.groups.take 4) :
    (Address.ipv6 address).client ≠ (Address.ipv6 other).client := by
  have areZeros : ∀ {address : Ipv6}, address.isMapped → address.groups.take 4 = [0, 0, 0, 0] :=
    fun {address} isMapped => by
      have isFirst := congrArg (List.take 4) isMapped.1
      rw [List.take_take] at isFirst
      exact isFirst
  intro isSame
  rw [Address.client, Address.client] at isSame
  by_cases isMapped : address.isMapped
  · by_cases isOtherMapped : other.isMapped
    · exact isOther ((areZeros isMapped).trans (areZeros isOtherMapped).symm)
    · rw [if_pos isMapped, if_neg isOtherMapped] at isSame
      cases isSame
  · by_cases isOtherMapped : other.isMapped
    · rw [if_neg isMapped, if_pos isOtherMapped] at isSame
      cases isSame
    · rw [if_neg isMapped, if_neg isOtherMapped] at isSame
      exact isOther (Client.ipv6.inj isSame)

/-- **The bucket depends only on who is asking.** Every text of an address has the bucket of its
client: its first 64 bits, or the IPv4 address that it is or maps. Different clients have different
buckets, and a text of no address has neither a client's bucket nor that of a missing header. -/
theorem clientBucket_exact (casing : Casing) :
    (∀ text address, Spells text address →
        clientBucket casing (some text) = address.client.bucket) ∧
      (∀ address other : Address, address.client.bucket = other.client.bucket →
        address.client = other.client) ∧
      (∀ address other : Ipv6, address.groups.take 4 ≠ other.groups.take 4 →
        (Address.ipv6 address).client.bucket ≠ (Address.ipv6 other).client.bucket) ∧
      (∀ address other : Ipv4, address.octets ≠ other.octets →
        (Address.ipv4 address).client.bucket ≠ (Address.ipv4 other).client.bucket) ∧
      ∀ text, (∀ address, ¬ Spells text address) →
        ¬ units "ip4=" <+: clientBucket casing (some text) ∧
        ¬ units "ip6=" <+: clientBucket casing (some text) ∧
        clientBucket casing (some text) ≠ clientBucket casing none := by
  refine ⟨fun text address => bucket_of_spelled casing, fun address other => bucket_inj,
    fun address other isOther isSame => client_ne isOther (bucket_inj isSame),
    fun address other isOther isSame => isOther (Client.ipv4.inj (bucket_inj isSame)), ?_⟩
  intro text notSpelled
  rw [bucket_of_other casing notSpelled]
  refine ⟨fun isPrefix => ?_, fun isPrefix => ?_, fun isNone => ?_⟩
  · exact absurd (List.cons_prefix_cons.1 isPrefix).1 (by decide)
  · exact absurd (List.cons_prefix_cons.1 isPrefix).1 (by decide)
  · exact absurd (List.cons.inj isNone).1 (by decide)

/-- The lower case of ASCII alone. -/
def asciiCasing : Casing where
  toLowerCase text := text.map lowerUnit
  ascii _ _ := rfl
  beyond text := by
    rintro ⟨c, isUnit, isBeyond⟩
    have isLarge : 0x80 ≤ c.toNat := UInt16.le_iff_toNat_le.1 isBeyond
    have isLower := lowerUnit_toNat c
    rw [if_neg (by omega)] at isLower
    refine ⟨lowerUnit c, List.mem_map_of_mem isUnit, ?_, fun isColon => ?_, fun isDot => ?_⟩
    · rw [Bool.eq_false_iff]
      intro isHex
      rw [isHexDigit_iff] at isHex
      omega
    · rw [isColon] at isLower
      exact absurd isLower (by rw [show (u ':').toNat = 0x3a from rfl]; omega)
    · rw [isDot] at isLower
      exact absurd isLower (by rw [show (u '.').toNat = 0x2e from rfl]; omega)

/-- Two texts of one IPv4 address, one of them mapped. -/
theorem clientBucket_exact_example :
    clientBucket asciiCasing (some (units "[::FFFF:100.64.0.1%eth0]"))
      = clientBucket asciiCasing (some (units "100.64.0.1")) := by
  have isQuad : SpellsQuad (units "100.64.0.1") [100, 64, 0, 1] := ipv4_iff.1 (by decide)
  have isBare : Bare SpellsGroup (Pieces SpellsGroup) (units "::FFFF:100.64.0.1")
      [0, 0, 0, 0, 0, 0xffff, 0x6440, 1] := bare_lower.2 (ipv6_iff.1 (by decide +kernel))
  have isLine : (units "eth0").all (!endsLine ·) = true := by decide
  have isZone : Zone (u '%' :: units "eth0") := .named fun c isUnit => by
    have isWithin := List.all_eq_true.1 isLine c isUnit
    rw [Bool.not_eq_true'] at isWithin
    exact isWithin
  have isMapped := (clientBucket_exact asciiCasing).1 _
    (.ipv6 ⟨[0, 0, 0, 0, 0, 0xffff, 0x6440, 1], rfl, by decide⟩) (.bracketed isBare isZone)
  have isPlain := (clientBucket_exact asciiCasing).1 _ (.ipv4 ⟨[100, 64, 0, 1], rfl, by decide⟩)
    (.ipv4 isQuad)
  exact isMapped.trans isPlain.symm

end Murage.ClientBucket
