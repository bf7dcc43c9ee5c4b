import FunctionInventory.Data.MessagePack
import FunctionInventory.Proofs.Utf8

/-!
# The format of MessagePack

Which bytes stand for which values, said without reading them: a value may have several
forms, since numbers and sizes may be given in more bytes than they need. Reading takes
exactly one form off the front, so that bytes are read as a value if and only if they are
one of its forms, and no form is the beginning of another one.
-/
namespace FunctionInventory

namespace MessagePack

/-- How sizes are given: by marks that stand for one size each, and by marks in front of a
size in so many bytes. -/
structure Sizes where
  short : List (UInt8 × Nat)
  long : List (UInt8 × Nat)

/-- Consecutive marks for the sizes from zero on. -/
def marksFrom (first count : Nat) : List (UInt8 × Nat) :=
  (List.range count).map fun n => (UInt8.ofNat (first + n), n)

def textSizes : Sizes := ⟨marksFrom 0xa0 32, [(0xd9, 1), (0xda, 2), (0xdb, 4)]⟩

def bytesSizes : Sizes := ⟨[], [(0xc4, 1), (0xc5, 2), (0xc6, 4)]⟩

def listSizes : Sizes := ⟨marksFrom 0x90 16, [(0xdc, 2), (0xdd, 4)]⟩

def mapSizes : Sizes := ⟨marksFrom 0x80 16, [(0xde, 2), (0xdf, 4)]⟩

def extensionSizes : Sizes :=
  ⟨[(0xd4, 1), (0xd5, 2), (0xd6, 4), (0xd7, 8), (0xd8, 16)], [(0xc7, 1), (0xc8, 2), (0xc9, 4)]⟩

/-- The bytes in front of something of a size. -/
inductive Head (s : Sizes) : Nat → List UInt8 → Prop
  | short {mark : UInt8} {n : Nat} (h : (mark, n) ∈ s.short) : Head s n [mark]
  | long {mark : UInt8} {digits : List UInt8} (h : (mark, digits.length) ∈ s.long) :
      Head s (natOf digits) (mark :: digits)

/-- The marks of numbers that are not negative, with the widths of the numbers. -/
def naturalMarks : List (UInt8 × Nat) := [(0xcc, 1), (0xcd, 2), (0xce, 4), (0xcf, 8)]

/-- The marks of numbers in two's complement, with the widths of the numbers. -/
def integerMarks : List (UInt8 × Nat) := [(0xd0, 1), (0xd1, 2), (0xd2, 4), (0xd3, 8)]

/-- The bytes are a form of the value. -/
inductive Encodes : Value → List UInt8 → Prop
  | null : Encodes .null [0xc0]
  | bool (b : Bool) : Encodes (.bool b) [if b then 0xc3 else 0xc2]
  | small {b : UInt8} (h : b.toNat < 0x80) : Encodes (.int b.toNat) [b]
  | negative {b : UInt8} (h : 0xe0 ≤ b.toNat) : Encodes (.int (b.toNat - 256)) [b]
  | natural {mark : UInt8} {digits : List UInt8} (h : (mark, digits.length) ∈ naturalMarks) :
      Encodes (.int (natOf digits)) (mark :: digits)
  | integer {mark : UInt8} {digits : List UInt8} (h : (mark, digits.length) ∈ integerMarks) :
      Encodes (.int (intOf digits)) (mark :: digits)
  | single {digits : List UInt8} (h : digits.length = 4) :
      Encodes (.real (.ofBinary32 (UInt32.ofNat (natOf digits)))) (0xca :: digits)
  | double {digits : List UInt8} (h : digits.length = 8) :
      Encodes (.real ⟨UInt64.ofNat (natOf digits)⟩) (0xcb :: digits)
  | text {t : Text} {head body : List UInt8} (hhead : Head textSizes body.length head)
      (hbody : Text.encodeStrict? t = some body) : Encodes (.text t) (head ++ body)
  | bytes {head body : List UInt8} (hhead : Head bytesSizes body.length head) :
      Encodes (.bytes body) (head ++ body)
  | extension {v : Value} {code : UInt8} {head data : List UInt8}
      (hhead : Head extensionSizes data.length head)
      (hdata : extensionValue? (intOf [code]) data = some v) : Encodes v (head ++ code :: data)
  | list {head : List UInt8} {parts : List (Value × List UInt8)}
      (hhead : Head listSizes parts.length head) (hparts : ∀ p ∈ parts, Encodes p.1 p.2) :
      Encodes (.list (parts.map (·.1))) (head ++ parts.flatMap (·.2))
  | map {head : List UInt8} {parts : List ((Value × List UInt8) × (Value × List UInt8))}
      (hhead : Head mapSizes parts.length head) (keys : ∀ p ∈ parts, isFileKey p.1.1 = true)
      (hkeys : ∀ p ∈ parts, Encodes p.1.1 p.1.2) (hvalues : ∀ p ∈ parts, Encodes p.2.1 p.2.2) :
      Encodes (.map (parts.foldl (fun ms p => Value.put p.1.1 p.2.1 ms) []))
        (head ++ parts.flatMap fun p => p.1.2 ++ p.2.2)

/-- Something of a size: a value and the bytes that give it. -/
abbrev Body := Nat → Value → List UInt8 → Prop

def TextBody : Body := fun n v body =>
  body.length = n ∧ ∃ t, Text.encodeStrict? t = some body ∧ v = .text t

def BytesBody : Body := fun n v body => body.length = n ∧ v = .bytes body

def ExtensionBody : Body := fun n v body => ∃ code data, body = code :: data ∧
  data.length = n ∧ extensionValue? (intOf [code]) data = some v

/-- Items, behind those that were read before. -/
def ListBody (before : List Value) : Body := fun n v body =>
  ∃ parts : List (Value × List UInt8), parts.length = n ∧ (∀ p ∈ parts, Encodes p.1 p.2) ∧
    v = .list (before ++ parts.map (·.1)) ∧ body = parts.flatMap (·.2)

/-- Members, behind those that were read before. -/
def MapBody (before : List (Value × Value)) : Body := fun n v body =>
  ∃ parts : List ((Value × List UInt8) × (Value × List UInt8)), parts.length = n ∧
    (∀ p ∈ parts, isFileKey p.1.1 = true) ∧
    (∀ p ∈ parts, Encodes p.1.1 p.1.2) ∧ (∀ p ∈ parts, Encodes p.2.1 p.2.2) ∧
    v = .map (parts.foldl (fun ms p => Value.put p.1.1 p.2.1 ms) before) ∧
    body = parts.flatMap fun p => p.1.2 ++ p.2.2

/-- A head of these sizes and what follows it are a form of the value. -/
def Completes (s : Sizes) (Form : Body) : Prop :=
  ∀ n head v body, Head s n head → Form n v body → Encodes v (head ++ body)

theorem completes_text : Completes textSizes TextBody := by
  rintro n head v body hhead ⟨rfl, t, hbody, rfl⟩
  exact .text hhead hbody

theorem completes_bytes : Completes bytesSizes BytesBody := by
  rintro n head v body hhead ⟨rfl, rfl⟩
  exact .bytes hhead

theorem completes_extension : Completes extensionSizes ExtensionBody := by
  rintro n head v body hhead ⟨code, data, rfl, rfl, hdata⟩
  exact .extension hhead hdata

theorem completes_list : Completes listSizes (ListBody []) := by
  rintro n head v body hhead ⟨parts, rfl, hparts, rfl, rfl⟩
  exact .list hhead hparts

theorem completes_map : Completes mapSizes (MapBody []) := by
  rintro n head v body hhead ⟨parts, rfl, keys, hkeys, hvalues, rfl, rfl⟩
  exact .map hhead keys hkeys hvalues

/-- What a reader reads has the given form. -/
def Takes (r : Reader α) (Form : α → List UInt8 → Prop) : Prop :=
  ∀ bytes a rest, r bytes = some (a, rest) → ∃ front, bytes = front ++ rest ∧ Form a front

theorem Takes.mono {r : Reader α} {Form Form' : α → List UInt8 → Prop} (h : Takes r Form)
    (hform : ∀ a front, Form a front → Form' a front) : Takes r Form' := by
  intro bytes a rest hread
  obtain ⟨front, hfront, ha⟩ := h bytes a rest hread
  exact ⟨front, hfront, hform a front ha⟩

theorem takes_known (v : Value) : Takes (known v) fun w front => w = v ∧ front = [] := by
  intro bytes w rest h
  have hread : v = w ∧ bytes = rest := by simpa [known] using h
  exact ⟨[], by simp [hread.2], hread.1.symm, rfl⟩

theorem takes_take (n : Nat) : Takes (take n) fun b front => b = front ∧ front.length = n := by
  intro bytes b rest h
  simp only [take] at h
  split at h
  · next hlength =>
    cases h
    exact ⟨bytes.take n, (List.take_append_drop n bytes).symm, rfl, by simpa using hlength⟩
  · cases h

theorem takes_takeNat (width : Nat) :
    Takes (takeNat width) fun n front => n = natOf front ∧ front.length = width := by
  intro bytes n rest h
  obtain ⟨⟨b, left⟩, hb, heq⟩ := Option.map_eq_some_iff.1 h
  obtain ⟨front, hfront, rfl, hlength⟩ := takes_take width bytes b left hb
  cases heq
  exact ⟨b, hfront, rfl, hlength⟩

theorem takes_takeInt (width : Nat) :
    Takes (takeInt width) fun v front => v = .int (intOf front) ∧ front.length = width := by
  intro bytes v rest h
  obtain ⟨⟨b, left⟩, hb, heq⟩ := Option.map_eq_some_iff.1 h
  obtain ⟨front, hfront, rfl, hlength⟩ := takes_take width bytes b left hb
  cases heq
  exact ⟨b, hfront, rfl, hlength⟩

theorem takes_takeBytes (n : Nat) : Takes (takeBytes n) (BytesBody n) := by
  intro bytes v rest h
  obtain ⟨⟨b, left⟩, hb, heq⟩ := Option.map_eq_some_iff.1 h
  obtain ⟨front, hfront, rfl, hlength⟩ := takes_take n bytes b left hb
  cases heq
  exact ⟨b, hfront, hlength, rfl⟩

theorem decodeStrict?_eq_some_iff {t : Text} {bytes : List UInt8} :
    Text.decodeStrict? bytes = some t ↔ Text.encodeStrict? t = some bytes := by
  unfold Text.decodeStrict? Text.encodeStrict?
  constructor
  · intro h
    split at h
    · next u hu =>
      split at h
      · cases h
      · next hsurrogate =>
        cases h
        rw [if_neg hsurrogate, Text.eq_encode_of_decode? hu]
    · cases h
  · intro h
    split at h
    · cases h
    · next hsurrogate =>
      cases h
      rw [Text.decode?_encode]
      exact if_neg hsurrogate

theorem takes_takeText (n : Nat) : Takes (takeText n) (TextBody n) := by
  intro bytes v rest h
  obtain ⟨⟨b, left⟩, hb, h⟩ := Option.bind_eq_some_iff.1 h
  obtain ⟨t, ht, heq⟩ := Option.bind_eq_some_iff.1 h
  obtain ⟨front, hfront, rfl, hlength⟩ := takes_take n bytes b left hb
  cases heq
  exact ⟨b, hfront, hlength, t, decodeStrict?_eq_some_iff.1 ht, rfl⟩

theorem takes_takeExtension (n : Nat) : Takes (takeExtension n) (ExtensionBody n) := by
  intro bytes v rest h
  obtain ⟨⟨code, left⟩, hcode, h⟩ := Option.bind_eq_some_iff.1 h
  obtain ⟨⟨data, left'⟩, hdata, h⟩ := Option.bind_eq_some_iff.1 h
  obtain ⟨w, hw, heq⟩ := Option.bind_eq_some_iff.1 h
  obtain ⟨first, hfirst, rfl, hone⟩ := takes_take 1 bytes code left hcode
  obtain ⟨second, hsecond, rfl, hlength⟩ := takes_take n left data left' hdata
  obtain ⟨c, rfl⟩ := List.length_eq_one_iff.1 hone
  cases heq
  exact ⟨c :: data, by simp [hfirst, hsecond], c, data, rfl, hlength, hw⟩

/-- A number of so many bytes, and behind it what it asks for. -/
theorem takes_sized (width : Nat) {next : Nat → Reader Value} {Form : Body}
    (h : ∀ n, Takes (next n) (Form n)) :
    Takes (sized width next) fun v front => ∃ digits body,
      front = digits ++ body ∧ digits.length = width ∧ Form (natOf digits) v body := by
  intro bytes v rest hread
  obtain ⟨⟨n, left⟩, hn, hnext⟩ := Option.bind_eq_some_iff.1 hread
  obtain ⟨digits, hdigits, rfl, hlength⟩ := takes_takeNat width bytes n left hn
  obtain ⟨body, hbody, hform⟩ := h (natOf digits) left v rest hnext
  exact ⟨digits ++ body, by simp [hdigits, hbody], digits, body, rfl, hlength, hform⟩

section

variable {b : UInt8} {s : Sizes} {Form : Body} {next : Nat → Reader Value}

theorem takes_short {n : Nat} (hb : (b, n) ∈ s.short) (hs : Completes s Form)
    (h : Takes (next n) (Form n)) : Takes (next n) fun v front => Encodes v (b :: front) :=
  h.mono fun v front hform => hs n [b] v front (.short hb) hform

theorem takes_long {width : Nat} (hb : (b, width) ∈ s.long) (hs : Completes s Form)
    (h : ∀ n, Takes (next n) (Form n)) :
    Takes (sized width next) fun v front => Encodes v (b :: front) := by
  refine (takes_sized width h).mono ?_
  rintro v _ ⟨digits, body, rfl, rfl, hform⟩
  exact hs (natOf digits) (b :: digits) v body (.long hb) hform

end

theorem takes_constant {b : UInt8} {v : Value} (h : Encodes v [b]) :
    Takes (known v) fun w front => Encodes w (b :: front) := by
  refine (takes_known v).mono ?_
  rintro w front ⟨rfl, rfl⟩
  exact h

theorem takes_number {b : UInt8} {width : Nat} {number : Nat → Value}
    (h : ∀ digits : List UInt8, digits.length = width →
      Encodes (number (natOf digits)) (b :: digits)) :
    Takes (sized width fun n => known (number n)) fun v front => Encodes v (b :: front) := by
  refine (takes_sized width fun n => takes_known (number n)).mono ?_
  rintro v _ ⟨digits, _, rfl, hlength, rfl, rfl⟩
  rw [List.append_nil]
  exact h digits hlength

theorem takes_natural {b : UInt8} {width : Nat} (hb : (b, width) ∈ naturalMarks) :
    Takes (sized width fun n => known (.int n)) fun v front => Encodes v (b :: front) :=
  takes_number fun _ hlength => .natural (hlength ▸ hb)

theorem takes_integer {b : UInt8} {width : Nat} (hb : (b, width) ∈ integerMarks) :
    Takes (takeInt width) fun v front => Encodes v (b :: front) := by
  refine (takes_takeInt width).mono ?_
  rintro v front ⟨rfl, rfl⟩
  exact .integer hb

theorem mem_marksFrom {first count : Nat} {b : UInt8} (h : first ≤ b.toNat)
    (h' : b.toNat < first + count) : (b, b.toNat - first) ∈ marksFrom first count := by
  refine List.mem_map.2 ⟨b.toNat - first, List.mem_range.2 (by omega), ?_⟩
  have hsum : first + (b.toNat - first) = b.toNat := by omega
  rw [hsum, UInt8.ofNat_toNat]

/-- What follows a byte is what the byte asks for. -/
theorem takes_behind {items members : Nat → Reader Value}
    (hitems : ∀ n, Takes (items n) (ListBody [] n))
    (hmembers : ∀ n, Takes (members n) (MapBody [] n)) (b : UInt8) :
    Takes (behind items members b) fun v front => Encodes v (b :: front) := by
  unfold behind
  dsimp only
  split_ifs with h₁ h₂ h₃ h₄ h₅
  · exact takes_constant (.small h₁)
  · exact takes_short (mem_marksFrom (by omega) (by omega)) completes_map (hmembers _)
  · exact takes_short (mem_marksFrom (by omega) (by omega)) completes_list (hitems _)
  · exact takes_short (mem_marksFrom (by omega) (by omega)) completes_text (takes_takeText _)
  · exact takes_constant (.negative h₅)
  · have hmark : b = UInt8.ofNat b.toNat := UInt8.ofNat_toNat.symm
    split
    case h_32 => exact fun _ _ _ h => by cases h
    all_goals
      rename_i h
      rw [h] at hmark
      subst hmark
      first
        | exact takes_constant .null
        | exact takes_constant (.bool false)
        | exact takes_constant (.bool true)
        | exact takes_long (by decide) completes_bytes takes_takeBytes
        | exact takes_long (by decide) completes_extension takes_takeExtension
        | exact takes_number fun _ hlength => .single hlength
        | exact takes_number fun _ hlength => .double hlength
        | exact takes_natural (by decide)
        | exact takes_integer (by decide)
        | exact takes_short (by decide) completes_extension (takes_takeExtension _)
        | exact takes_long (by decide) completes_text takes_takeText
        | exact takes_long (by decide) completes_list hitems
        | exact takes_long (by decide) completes_map hmembers

theorem takes_items {fuel : Nat} (hvalue : Takes (value fuel) Encodes)
    (hitems : ∀ n acc, Takes (items fuel n acc) (ListBody acc.reverse n)) (n : Nat)
    (acc : List Value) : Takes (items (fuel + 1) n acc) (ListBody acc.reverse n) := by
  intro bytes v rest h
  cases n with
  | zero =>
    rw [items] at h
    cases h
    exact ⟨[], rfl, [], rfl, by simp, by simp, rfl⟩
  | succ n =>
    rw [items] at h
    split at h
    · next w left hw =>
      obtain ⟨first, hfirst, hform⟩ := hvalue bytes w left hw
      obtain ⟨others, hothers, parts, hlength, hparts, rfl, rfl⟩ := hitems n (w :: acc) left v rest h
      refine ⟨first ++ parts.flatMap (·.2), by simp [hfirst, hothers], (w, first) :: parts, ?_⟩
      refine ⟨by simp [hlength], List.forall_mem_cons.2 ⟨hform, hparts⟩, by simp, rfl⟩
    · cases h

theorem takes_members {fuel : Nat} (hvalue : Takes (value fuel) Encodes)
    (hmembers : ∀ n acc, Takes (members fuel n acc) (MapBody acc n)) (n : Nat)
    (acc : List (Value × Value)) : Takes (members (fuel + 1) n acc) (MapBody acc n) := by
  intro bytes v rest h
  cases n with
  | zero =>
    rw [members] at h
    cases h
    exact ⟨[], rfl, [], rfl, by simp, by simp, by simp, rfl, rfl⟩
  | succ n =>
    rw [members] at h
    split at h
    · next k left hk =>
      split at h
      · next hkey =>
        split at h
        · next w left' hw =>
          obtain ⟨key, hkeyBytes, hkeyForm⟩ := hvalue bytes k left hk
          obtain ⟨value, hvalueBytes, hvalueForm⟩ := hvalue left w left' hw
          obtain ⟨others, hothers, parts, hlength, keys, hkeys, hvalues, rfl, rfl⟩ :=
            hmembers n (Value.put k w acc) left' v rest h
          refine ⟨key ++ value ++ parts.flatMap fun p => p.1.2 ++ p.2.2,
            by simp [hkeyBytes, hvalueBytes, hothers], ((k, key), (w, value)) :: parts, ?_⟩
          exact ⟨by simp [hlength], List.forall_mem_cons.2 ⟨hkey, keys⟩,
            List.forall_mem_cons.2 ⟨hkeyForm, hkeys⟩, List.forall_mem_cons.2 ⟨hvalueForm, hvalues⟩,
            rfl, rfl⟩
        · cases h
      · cases h
    · cases h

/-- With any fuel, what is read is a form of what it is read as. -/
theorem takes_value (fuel : Nat) : Takes (value fuel) Encodes ∧
    (∀ n acc, Takes (items fuel n acc) (ListBody acc.reverse n)) ∧
    ∀ n acc, Takes (members fuel n acc) (MapBody acc n) := by
  induction fuel with
  | zero =>
    refine ⟨fun bytes v rest h => (by cases h), fun n acc bytes v rest h => ?_,
      fun n acc bytes v rest h => ?_⟩
    · cases n with
      | zero =>
        cases h
        exact ⟨[], rfl, [], rfl, by simp, by simp, rfl⟩
      | succ n => cases h
    · cases n with
      | zero =>
        cases h
        exact ⟨[], rfl, [], rfl, by simp, by simp, by simp, rfl, rfl⟩
      | succ n => cases h
  | succ fuel ih =>
    obtain ⟨hvalue, hitems, hmembers⟩ := ih
    refine ⟨?_, takes_items hvalue hitems, takes_members hvalue hmembers⟩
    intro bytes v rest h
    cases bytes with
    | nil => cases h
    | cons b bytes =>
      have hbehind := takes_behind (fun n => hitems n []) (fun n => hmembers n []) b
      obtain ⟨front, rfl, hform⟩ := hbehind bytes v rest h
      exact ⟨b :: front, rfl, hform⟩

theorem take_append {bytes : List UInt8} {n : Nat} (h : bytes.length = n) (rest : List UInt8) :
    take n (bytes ++ rest) = some (bytes, rest) := by
  subst h
  simp [take]

theorem sized_append (digits : List UInt8) (next : Nat → Reader Value) (rest : List UInt8) :
    sized digits.length next (digits ++ rest) = next (natOf digits) rest := by
  simp [sized, takeNat, take_append rfl]

theorem takeInt_append (digits rest : List UInt8) :
    takeInt digits.length (digits ++ rest) = some (.int (intOf digits), rest) := by
  simp [takeInt, take_append rfl]

/-- The bytes of a head are at least one, and behind them reading goes on with `next`. -/
def LeadsTo (head : List UInt8) (next : (fuel : Nat) → Reader Value) : Prop :=
  0 < head.length ∧ ∀ fuel rest, value (fuel + 1) (head ++ rest) = next fuel rest

theorem exists_of_mem_marksFrom {first count : Nat} {mark : UInt8} {n : Nat}
    (h : (mark, n) ∈ marksFrom first count) (hfits : first + count ≤ 256) :
    n < count ∧ mark.toNat = first + n := by
  obtain ⟨m, hm, heq⟩ := List.mem_map.1 h
  obtain ⟨rfl, rfl⟩ := Prod.mk.inj heq
  have hlt := List.mem_range.1 hm
  exact ⟨hlt, toNat_ofNat_of_lt (by omega)⟩

/-- A head leads on if each of its marks does. -/
theorem Head.leadsTo {s : Sizes} (next : (fuel n : Nat) → Reader Value)
    (hshort : ∀ m ∈ s.short, ∀ fuel rest, value (fuel + 1) (m.1 :: rest) = next fuel m.2 rest)
    (hlong : ∀ m ∈ s.long, ∀ fuel rest,
      value (fuel + 1) (m.1 :: rest) = sized m.2 (next fuel) rest)
    {n : Nat} {head : List UInt8} (h : Head s n head) : LeadsTo head fun fuel => next fuel n := by
  cases h with
  | short hmark => exact ⟨by simp, hshort _ hmark⟩
  | long hmark =>
    refine ⟨by simp, fun fuel rest => ?_⟩
    rw [List.cons_append, hlong _ hmark, sized_append]

theorem leadsTo_text {n : Nat} {head : List UInt8} (h : Head textSizes n head) :
    LeadsTo head fun _ => takeText n := by
  refine h.leadsTo (fun _ n => takeText n) (fun m hm fuel rest => ?_) ?_
  · obtain ⟨hn, hb⟩ := exists_of_mem_marksFrom hm (by omega)
    simp only [value, behind, hb]
    rw [if_neg (by omega), if_neg (by omega), if_neg (by omega), if_pos (by omega),
      Nat.add_sub_cancel_left]
  · simp [textSizes, value, behind]

theorem leadsTo_bytes {n : Nat} {head : List UInt8} (h : Head bytesSizes n head) :
    LeadsTo head fun _ => takeBytes n := by
  refine h.leadsTo (fun _ n => takeBytes n) ?_ ?_
  · simp [bytesSizes]
  · simp [bytesSizes, value, behind]

theorem leadsTo_extension {n : Nat} {head : List UInt8} (h : Head extensionSizes n head) :
    LeadsTo head fun _ => takeExtension n := by
  refine h.leadsTo (fun _ n => takeExtension n) ?_ ?_
  · simp [extensionSizes, value, behind]
  · simp [extensionSizes, value, behind]

theorem leadsTo_list {n : Nat} {head : List UInt8} (h : Head listSizes n head) :
    LeadsTo head fun fuel => items fuel n [] := by
  refine h.leadsTo (fun fuel n => items fuel n []) (fun m hm fuel rest => ?_) ?_
  · obtain ⟨hn, hb⟩ := exists_of_mem_marksFrom hm (by omega)
    simp only [value, behind, hb]
    rw [if_neg (by omega), if_neg (by omega), if_pos (by omega), Nat.add_sub_cancel_left]
  · simp [listSizes, value, behind]

theorem leadsTo_map {n : Nat} {head : List UInt8} (h : Head mapSizes n head) :
    LeadsTo head fun fuel => members fuel n [] := by
  refine h.leadsTo (fun fuel n => members fuel n []) (fun m hm fuel rest => ?_) ?_
  · obtain ⟨hn, hb⟩ := exists_of_mem_marksFrom hm (by omega)
    simp only [value, behind, hb]
    rw [if_neg (by omega), if_pos (by omega), Nat.add_sub_cancel_left]
  · simp [mapSizes, value, behind]

/-- Reading takes these bytes for the value, and no more, if the fuel is twice their number. -/
def ReadsAs (v : Value) (bytes : List UInt8) : Prop :=
  ∀ fuel rest, 2 * bytes.length ≤ fuel → value fuel (bytes ++ rest) = some (v, rest)

theorem ReadsAs.length_pos {v : Value} {bytes : List UInt8} (h : ReadsAs v bytes) :
    0 < bytes.length := by
  rw [List.length_pos_iff]
  rintro rfl
  simpa [value] using h 0 [] (Nat.le_refl 0)

/-- With fuel for a head and what follows it, the head leaves enough for what follows. -/
theorem LeadsTo.value_append {head tail : List UInt8} {next : Nat → Reader Value} {fuel : Nat}
    (h : LeadsTo head next) (hfuel : 2 * (head ++ tail).length ≤ fuel) :
    ∃ left, 2 * tail.length + 1 ≤ left ∧
      ∀ rest, value fuel (head ++ tail ++ rest) = next left (tail ++ rest) := by
  obtain ⟨hpos, hvalue⟩ := h
  rw [List.length_append] at hfuel
  obtain ⟨left, rfl⟩ : ∃ left, fuel = left + 1 := ⟨fuel - 1, by omega⟩
  refine ⟨left, by omega, fun rest => ?_⟩
  rw [List.append_assoc, hvalue]

/-- A mark with its digits is read as the number that they denote. -/
theorem readsAs_mark {v : Value} {mark : UInt8} {digits : List UInt8}
    (h : ∀ fuel rest, value (fuel + 1) (mark :: digits ++ rest) = some (v, rest)) :
    ReadsAs v (mark :: digits) := by
  intro fuel rest hfuel
  rw [List.length_cons] at hfuel
  obtain ⟨left, rfl⟩ : ∃ left, fuel = left + 1 := ⟨fuel - 1, by omega⟩
  exact h left rest

theorem items_append {parts : List (Value × List UInt8)} (h : ∀ p ∈ parts, ReadsAs p.1 p.2)
    (fuel : Nat) (acc : List Value) (rest : List UInt8)
    (hfuel : 2 * (parts.flatMap (·.2)).length + 1 ≤ fuel) :
    items fuel parts.length acc (parts.flatMap (·.2) ++ rest) =
      some (.list (acc.reverse ++ parts.map (·.1)), rest) := by
  induction parts generalizing fuel acc with
  | nil => simp [items]
  | cons p parts ih =>
    obtain ⟨hp, hparts⟩ := List.forall_mem_cons.1 h
    have hpos := hp.length_pos
    rw [List.flatMap_cons, List.length_append] at hfuel
    obtain ⟨fuel, rfl⟩ : ∃ m, fuel = m + 1 := ⟨fuel - 1, by omega⟩
    rw [List.length_cons, items, List.flatMap_cons, List.append_assoc, hp fuel _ (by omega)]
    dsimp only
    rw [ih hparts fuel (p.1 :: acc) (by omega)]
    simp

theorem members_append {parts : List ((Value × List UInt8) × (Value × List UInt8))}
    (keys : ∀ p ∈ parts, isFileKey p.1.1 = true) (hkeys : ∀ p ∈ parts, ReadsAs p.1.1 p.1.2)
    (hvalues : ∀ p ∈ parts, ReadsAs p.2.1 p.2.2) (fuel : Nat) (acc : List (Value × Value))
    (rest : List UInt8) (hfuel : 2 * (parts.flatMap fun p => p.1.2 ++ p.2.2).length + 1 ≤ fuel) :
    members fuel parts.length acc ((parts.flatMap fun p => p.1.2 ++ p.2.2) ++ rest) =
      some (.map (parts.foldl (fun ms p => Value.put p.1.1 p.2.1 ms) acc), rest) := by
  induction parts generalizing fuel acc with
  | nil => simp [members]
  | cons p parts ih =>
    obtain ⟨hkey, keys⟩ := List.forall_mem_cons.1 keys
    obtain ⟨hk, hkeys⟩ := List.forall_mem_cons.1 hkeys
    obtain ⟨hv, hvalues⟩ := List.forall_mem_cons.1 hvalues
    have hpos := hk.length_pos
    simp only [List.flatMap_cons, List.length_append] at hfuel
    obtain ⟨fuel, rfl⟩ : ∃ m, fuel = m + 1 := ⟨fuel - 1, by omega⟩
    rw [List.length_cons, members, List.flatMap_cons, List.append_assoc, List.append_assoc,
      hk fuel _ (by omega)]
    simp only [hkey, if_true]
    rw [hv fuel _ (by omega)]
    dsimp only
    rw [ih keys hkeys hvalues fuel _ (by omega), List.foldl_cons]

/-- Every form of a value is read as the value, whatever follows it. -/
theorem Encodes.readsAs {v : Value} {bytes : List UInt8} (h : Encodes v bytes) :
    ReadsAs v bytes := by
  induction h with
  | null => exact readsAs_mark fun fuel rest => by simp [value, behind, known]
  | bool b =>
    refine readsAs_mark fun fuel rest => ?_
    cases b <;> simp [value, behind, known]
  | small hb => exact readsAs_mark fun fuel rest => by simp [value, behind, hb, known]
  | @negative b hb =>
    refine readsAs_mark fun fuel rest => ?_
    simp only [List.cons_append, List.nil_append, value, behind]
    rw [if_neg (by omega), if_neg (by omega), if_neg (by omega), if_neg (by omega), if_pos hb]
    rfl
  | @natural mark digits hmark =>
    refine readsAs_mark fun fuel rest => ?_
    have hsized := sized_append digits (fun n => known (.int n)) rest
    simp only [naturalMarks, List.mem_cons, Prod.mk.injEq, List.not_mem_nil, or_false] at hmark
    rcases hmark with ⟨rfl, hwidth⟩ | ⟨rfl, hwidth⟩ | ⟨rfl, hwidth⟩ | ⟨rfl, hwidth⟩ <;>
      rw [hwidth] at hsized <;> simpa [value, behind, known] using hsized
  | @integer mark digits hmark =>
    refine readsAs_mark fun fuel rest => ?_
    have htake := takeInt_append digits rest
    simp only [integerMarks, List.mem_cons, Prod.mk.injEq, List.not_mem_nil, or_false] at hmark
    rcases hmark with ⟨rfl, hwidth⟩ | ⟨rfl, hwidth⟩ | ⟨rfl, hwidth⟩ | ⟨rfl, hwidth⟩ <;>
      rw [hwidth] at htake <;> simpa [value, behind] using htake
  | @single digits hwidth =>
    refine readsAs_mark fun fuel rest => ?_
    have hsized := sized_append digits (fun n => known (.real (.ofBinary32 (.ofNat n)))) rest
    rw [hwidth] at hsized
    simpa [value, behind, known] using hsized
  | @double digits hwidth =>
    refine readsAs_mark fun fuel rest => ?_
    have hsized := sized_append digits (fun n => known (.real ⟨.ofNat n⟩)) rest
    rw [hwidth] at hsized
    simpa [value, behind, known] using hsized
  | text hhead hbody =>
    intro fuel rest hfuel
    obtain ⟨left, -, hvalue⟩ := (leadsTo_text hhead).value_append hfuel
    rw [hvalue, takeText, take_append rfl]
    simp [decodeStrict?_eq_some_iff.2 hbody]
  | bytes hhead =>
    intro fuel rest hfuel
    obtain ⟨left, -, hvalue⟩ := (leadsTo_bytes hhead).value_append hfuel
    rw [hvalue, takeBytes, take_append rfl]
    rfl
  | @extension v code head data hhead hdata =>
    intro fuel rest hfuel
    obtain ⟨left, -, hvalue⟩ := (leadsTo_extension hhead).value_append hfuel
    have hone : [code].length = 1 := rfl
    have hcode := take_append hone (data ++ rest)
    rw [hvalue, takeExtension, List.cons_append, ← List.singleton_append, hcode]
    simp [take_append, hdata]
  | list hhead _ ih =>
    intro fuel rest hfuel
    obtain ⟨left, hleft, hvalue⟩ := (leadsTo_list hhead).value_append hfuel
    rw [hvalue, items_append ih left [] rest hleft]
    rfl
  | map hhead keys _ _ ihkeys ihvalues =>
    intro fuel rest hfuel
    obtain ⟨left, hleft, hvalue⟩ := (leadsTo_map hhead).value_append hfuel
    rw [hvalue, members_append keys ihkeys ihvalues left [] rest hleft]

/-- Bytes are read as a value if and only if they are one of its forms. -/
theorem read?_eq_some_iff {bytes : List UInt8} {v : Value} :
    read? bytes = some v ↔ Encodes v bytes := by
  constructor
  · intro h
    unfold read? at h
    split at h
    · next w hread =>
      cases h
      obtain ⟨front, rfl, hform⟩ := (takes_value _).1 bytes v [] hread
      rwa [List.append_nil]
    · cases h
  · intro h
    have hread := h.readsAs (2 * bytes.length + 2) [] (by omega)
    rw [List.append_nil] at hread
    rw [read?, hread]

/-- No form goes on from another one. -/
theorem Encodes.eq_nil_of_append {v w : Value} {front rest : List UInt8} (h : Encodes v front)
    (h' : Encodes w (front ++ rest)) : rest = [] := by
  have hlength : 2 * front.length ≤ 2 * (front ++ rest).length := by
    rw [List.length_append]
    omega
  have hfront := h.readsAs _ rest hlength
  have hwhole := h'.readsAs _ [] (Nat.le_refl _)
  rw [List.append_nil, hfront] at hwhole
  exact (Prod.mk.inj (Option.some.inj hwhole)).2

end MessagePack

end FunctionInventory
