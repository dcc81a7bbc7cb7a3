import SkbTracer.Output.Entry
import SkbTracer.Output.Lossless

/-!
# What the table shows

Every number of an entry has a column that the title line leaves for it, but the number
may be wider. `Narrow` says when none is; the last column is free to be longer, since
nothing stands behind it. Then, and only then, what an entry shows stands under the
titles, and the line tells the event: a reader, or a script, gets the processor, the
process, the address of the skb, its metadata and its tuple from the columns. What is left
out is the time, the address of the function, which is shown by name, and the flags.

- `entry_fits_iff`: `Narrow` in terms of the cells of an entry.
- `entry_aligned_iff`: every column of an entry begins where that of the title line does
  exactly if the entry is narrow, for every combination of the options.
- `line_determines`: if two narrow entries of one run are printed alike, then what they
  show is the same (`SameShown`); and if both were recorded from packets with ports, these
  are of one flow.
- `sameFlow_of_ends`: from tuples to packets, through `setTuple_carries`, which says what
  of a packet is recorded.

The process is shown as its id and its name with a `/` between them, so the id is told
whatever the name is; likewise the interface, whose index stands behind the last colon or
alone. The namespace, the address of the skb and the protocol fit their columns always,
and are not in `Narrow`.
-/

namespace SkbTracer.Output

open SkbTracer.Kprobe
open SkbTracer.Libc
open SkbTracer.Lib (Cell row start drop_start Aligned Byte aligned_iff row_inj padded_inj byteOf
  leNat leNat_lt byteOf_leNat)

variable {s s' : Printer} {out : Out} {event event' : SkbEvent} {o o' : Outside} {x x' : Texts}
  {line line' : List Char} {mode : TimestampMode}

/-- Every field of the entry is as short as its column. The last column of the line may be
longer: nothing stands behind it. That is the tuple if it is shown, which is why it is not
here, and else the mark, which then has no limit. -/
structure Narrow (out : Out) (event : SkbEvent) (x : Texts) : Prop where
  time : out.timestampMode ≠ .none → x.time.length ≤ timeWidth out.timestampMode
  cpuId : event.cpuId.toNat < 10 ^ 4
  proc : x.proc.length ≤ 20
  func : out.outputMeta ∨ out.outputTuple → x.func.length ≤ 32
  iface : out.outputMeta → x.iface.length ≤ 12
  mtu : out.outputMeta → event.skbMeta.mtu.toNat < 10 ^ 6
  len : out.outputMeta → event.skbMeta.len.toNat < 10 ^ 7
  mark : out.outputMeta → out.outputTuple → event.skbMeta.mark.toNat < 16 ^ 6

/-! ## Widths -/

/-- How many digits a number has. -/
theorem decText_length_le {n : BitVec 32} {k : Nat} (hk : 0 < k) :
    (decText n).length ≤ k ↔ n.toNat < 10 ^ k :=
  Nat.length_toDigits_le_iff (by decide) hk

/-- And in base 16, with the `0x`. -/
theorem hexText_length_le {n k : Nat} (hk : 0 < k) :
    (hexText n).length ≤ k + 2 ↔ n < 16 ^ k := by
  unfold hexText
  rw [List.length_cons, List.length_cons, Nat.add_le_add_iff_right, Nat.add_le_add_iff_right]
  exact Nat.length_toDigits_le_iff (b := 16) (by decide) hk

theorem netns_fits (n : BitVec 32) : (decText n).length ≤ 11 :=
  (decText_length_le (by decide)).mpr (lt_trans n.isLt (by decide))

theorem skbAddr_fits (n : BitVec 64) : (hexText n.toNat).length ≤ 18 :=
  (hexText_length_le (k := 16) (by decide)).mpr n.isLt

theorem proto_fits (proto : BitVec 16) : (protoText proto).length ≤ 8 := by
  have hlen : (Nat.toDigits 16 (htons proto).toNat).length ≤ 4 :=
    (Nat.length_toDigits_le_iff (by decide) (by decide)).mpr (htons proto).isLt
  unfold protoText
  rw [List.length_cons, List.length_cons, List.length_leftpad]
  omega

/-- Titles and entries have the same columns, for all options. -/
theorem cells_width (out : Out) (event : SkbEvent) (x : Texts) :
    (headerCells out).map Cell.width = (entryCells out event x).map Cell.width := by
  unfold headerCells entryCells cellsOf
  rcases out.outputMeta with _ | _ <;> rcases out.outputTuple with _ | _ <;> split <;> rfl

theorem header_fits (out : Out) : ∀ c ∈ (headerCells out).dropLast, c.Fits := by
  rcases out with ⟨m, t, mode, startTs⟩
  have hstart : headerCells ⟨m, t, mode, startTs⟩ = headerCells ⟨m, t, mode, 0⟩ := rfl
  rw [hstart]
  cases m <;> cases t <;> cases mode <;> decide

/-- The last column may be as wide as it likes. -/
theorem entry_fits_iff (out : Out) (event : SkbEvent) (x : Texts) :
    (∀ c ∈ (entryCells out event x).dropLast, c.Fits) ↔ Narrow out event x := by
  have hnarrow : Narrow out event x ↔
      (out.timestampMode ≠ .none → x.time.length ≤ timeWidth out.timestampMode) ∧
      (decText event.cpuId).length ≤ 4 ∧ x.proc.length ≤ 20 ∧
      (out.outputMeta ∨ out.outputTuple → x.func.length ≤ 32) ∧
      (out.outputMeta → x.iface.length ≤ 12) ∧
      (out.outputMeta → (decText event.skbMeta.mtu).length ≤ 6) ∧
      (out.outputMeta → (decText event.skbMeta.len).length ≤ 7) ∧
      (out.outputMeta → out.outputTuple → (hexText event.skbMeta.mark.toNat).length ≤ 8) := by
    rw [decText_length_le (by decide), decText_length_le (by decide),
      decText_length_le (by decide), hexText_length_le (k := 6) (by decide)]
    exact ⟨fun ⟨h₁, h₂, h₃, h₄, h₅, h₆, h₇, h₈⟩ => ⟨h₁, h₂, h₃, h₄, h₅, h₆, h₇, h₈⟩,
      fun ⟨h₁, h₂, h₃, h₄, h₅, h₆, h₇, h₈⟩ => ⟨h₁, h₂, h₃, h₄, h₅, h₆, h₇, h₈⟩⟩
  have hnetns := netns_fits event.skbMeta.netns
  have hskb := skbAddr_fits event.skbAddr
  have hproto := proto_fits event.skbMeta.proto
  rw [hnarrow]
  rcases out with ⟨m, t, mode, _⟩
  cases m <;> cases t <;> by_cases hmode : mode = .none <;>
    simp only [entryCells, cellsOf, ne_eq, hmode, not_true_eq_false, not_false_eq_true,
      Bool.false_eq_true, if_true, if_false, List.cons_append, List.nil_append, List.append_nil,
      List.dropLast_cons_cons, List.dropLast_singleton, List.forall_mem_cons, Cell.Fits, hnetns,
      hskb, hproto, List.not_mem_nil, false_imp_iff, forall_true_left, or_self, or_true, true_or,
      true_and, and_true, implies_true]

/-! ## Under the titles -/

theorem texts_of_printEntry (h : printEntry s event o = some (s', line)) :
    ∃ x, s.texts event o = some x ∧ s' = s.next event o ∧
      line = row (entryCells s.out event x) := by
  rw [printEntry_row] at h
  obtain ⟨x, hx, heq⟩ := Option.map_eq_some_iff.mp h
  cases heq
  exact ⟨x, hx, rfl, rfl⟩

/-- **An entry stands under the titles exactly if it is narrow**: if every field but the last
is as short as its column. Then the line has, from where the title of a column begins, the
entry from that column on, and only the last column may run over its width. -/
theorem entry_aligned_iff (s : Printer) (event : SkbEvent) (o : Outside)
    (h : printEntry s event o = some (s', line)) :
    ∃ x, s.texts event o = some x ∧ printHeader s.out = row (headerCells s.out) ∧
      line = row (entryCells s.out event x) ∧
      (headerCells s.out).map Cell.width = (entryCells s.out event x).map Cell.width ∧
      (Aligned (headerCells s.out) (entryCells s.out event x) ↔ Narrow s.out event x) ∧
      (Narrow s.out event x → ∀ k < (headerCells s.out).length,
        line.drop (start (headerCells s.out) k) = row ((entryCells s.out event x).drop k)) := by
  obtain ⟨x, hx, -, hline⟩ := texts_of_printEntry h
  have hwidth := cells_width s.out event x
  have hiff : Aligned (headerCells s.out) (entryCells s.out event x) ↔ Narrow s.out event x := by
    rw [aligned_iff hwidth (header_fits s.out)]
    exact entry_fits_iff s.out event x
  refine ⟨x, hx, printHeader_row s.out, hline, hwidth, hiff, fun hn k hk => ?_⟩
  have hlen := congrArg List.length hwidth
  rw [List.length_map, List.length_map] at hlen
  rw [hline, hiff.mpr hn k hk, drop_start (hlen ▸ hk)]

/-- A printer that shows the metadata and no time. -/
def metaPrinter : Printer where
  out := { outputMeta := true, outputTuple := false, timestampMode := .none, startTs := 0 }
  ifnames := .empty
  comms _ := none
  boot := none

/-- An event with short numbers. -/
def shortEvent (ts : BitVec 64) : SkbEvent where
  pid := 7
  cpuId := 2
  ts := ts
  skbAddr := 0x1000
  addr := 0
  skbMeta := { netns := 0, mark := 5, ifindex := 2, mtu := 1500, len := 60, proto := 8 }
  tuple := emptyTuple

/-- It is narrow, whatever its texts are. -/
theorem shortEvent_narrow (ts : BitVec 64) (x : Texts)
    (hx : metaPrinter.texts (shortEvent ts) quietOutside = some x) :
    Narrow metaPrinter.out (shortEvent ts) x := by
  have hcpu : (2 : BitVec 32).toNat < 10 ^ 4 := by decide
  have hproc : (formatProc metaPrinter.comms 7 quietOutside.comm).2.length ≤ 20 := by decide
  have hfunc : "kfree_skb".toList.length ≤ 32 := by decide
  have hiface : (formatIface .empty 0 2 quietOutside.ifname).2.length ≤ 12 := by decide
  have hmtu : (1500 : BitVec 32).toNat < 10 ^ 6 := by decide
  have hlen : (60 : BitVec 32).toNat < 10 ^ 7 := by decide
  cases hx
  exact ⟨fun h => absurd rfl h, hcpu, hproc, fun _ => hfunc, fun _ => hiface, fun _ => hmtu,
    fun _ => hlen, fun _ h => by cases h⟩

/-- The entry of the event is aligned. -/
theorem entry_aligned_iff_short : ∃ s' x line,
    printEntry metaPrinter (shortEvent 1) quietOutside = some (s', line) ∧
      line = row (entryCells metaPrinter.out (shortEvent 1) x) ∧
      Aligned (headerCells metaPrinter.out) (entryCells metaPrinter.out (shortEvent 1) x) := by
  obtain ⟨s', line, hline⟩ : ∃ s' line,
      printEntry metaPrinter (shortEvent 1) quietOutside = some (s', line) := ⟨_, _, rfl⟩
  obtain ⟨x, hx, -, hrow, -, haligned, -⟩ := entry_aligned_iff metaPrinter _ _ hline
  exact ⟨s', x, line, hline, hrow, haligned.mpr (shortEvent_narrow 1 x hx)⟩

/-! ## Reading a line -/

theorem toDigits_inj {base n n' : Nat} (hb : 1 < base) (h16 : base ≤ 16)
    (h : Nat.toDigits base n = Nat.toDigits base n') : n = n' := by
  rw [← digitsVal_toDigits hb h16 n, h, digitsVal_toDigits hb h16]

/-- The digits tell a number. -/
theorem decText_inj {n n' : BitVec 32} (h : decText n = decText n') : n = n' :=
  BitVec.eq_of_toNat_eq (toDigits_inj (by decide) (by decide) h)

/-- So do those of base 16. -/
theorem hexText_inj {n n' : Nat} (h : hexText n = hexText n') : n = n' :=
  toDigits_inj (by decide) (by decide) (List.cons.inj (List.cons.inj h).2).2

theorem digitsVal_leftpad (width : Nat) (text : List Char) :
    digitsVal 16 0 (text.leftpad width '0') = digitsVal 16 0 text := by
  unfold List.leftpad
  induction width - text.length with
  | zero => rfl
  | succ n ih => rw [List.replicate_succ, List.cons_append, digitsVal_zero_cons, ih]

/-- A protocol is told by its four digits, with the zeros in front. -/
theorem protoText_inj {proto proto' : BitVec 16} (h : protoText proto = protoText proto') :
    proto = proto' := by
  have hpad := congrArg (digitsVal 16 0) (List.cons.inj (List.cons.inj h).2).2
  rw [digitsVal_leftpad, digitsVal_leftpad, digitsVal_toDigits (by decide) (by decide),
    digitsVal_toDigits (by decide) (by decide)] at hpad
  exact htons_inj (BitVec.eq_of_toNat_eq hpad)

theorem not_blank_decText (n : BitVec 32) : ' ' ∉ decText n :=
  not_mem_toDigits (by decide) (by decide) (by decide)

theorem not_blank_hexText (n : Nat) : ' ' ∉ hexText n := by
  have hdigits : ' ' ∉ Nat.toDigits 16 n := not_mem_toDigits (by decide) (by decide) (by decide)
  simp [hexText, hdigits]

theorem not_blank_protoText (proto : BitVec 16) : ' ' ∉ protoText proto := by
  have hdigits : ' ' ∉ Nat.toDigits 16 (htons proto).toNat :=
    not_mem_toDigits (by decide) (by decide) (by decide)
  simp [protoText, List.leftpad, hdigits]

/-- A cell without blanks is read with them. -/
theorem pad_inj {width : Nat} {text text' : List Char} (hb : ' ' ∉ text) (hb' : ' ' ∉ text')
    (h : pad width text = pad width text') : text = text' :=
  padded_inj (fun hlast => hb (List.mem_of_getLast? hlast))
    (fun hlast => hb' (List.mem_of_getLast? hlast)) h

/-- The process id ends at the slash. -/
theorem pid_of_proc {pid pid' : BitVec 32} {name name' : List Char} {width : Nat}
    (h : pad width (decText pid ++ '/' :: name) = pad width (decText pid' ++ '/' :: name')) :
    pid = pid' := by
  have hslash : ∀ n, '/' ∉ decText n := fun n =>
    not_mem_toDigits (by decide) (by decide) (by decide)
  unfold pad List.rightpad at h
  rw [List.append_assoc, List.append_assoc, List.cons_append, List.cons_append] at h
  exact decText_inj (cut_at (hslash pid) (hslash pid') h).1

/-- The text of an interface: its number, behind a name if there is one. -/
theorem formatIface_text (c : DevCache) (netns ifindex : BitVec 32) (os : Option String) :
    (formatIface c netns ifindex os).2 = decText ifindex ∨
      ∃ name : List Char, (formatIface c netns ifindex os).2 = name ++ ':' :: decText ifindex := by
  unfold formatIface
  dsimp only
  split
  · exact Or.inr ⟨_, rfl⟩
  · exact Or.inl rfl

/-- The number of an interface stands behind the last colon. -/
theorem ifindex_of_iface {c c' : DevCache} {netns netns' ifindex ifindex' : BitVec 32}
    {os os' : Option String} {width : Nat}
    (h : pad width (formatIface c netns ifindex os).2 =
      pad width (formatIface c' netns' ifindex' os').2) : ifindex = ifindex' := by
  have hcolon : ∀ n, ':' ∉ decText n := fun n =>
    not_mem_toDigits (by decide) (by decide) (by decide)
  have hend : ∀ (pre : List Char) n, (pre ++ decText n).getLast? ≠ some ' ' := by
    intro pre n hlast
    have hne : decText n ≠ [] := Nat.toDigits_ne_nil
    rw [List.getLast?_append_of_ne_nil _ hne] at hlast
    exact not_blank_decText n (List.mem_of_getLast? hlast)
  have hcons : ∀ (name : List Char) n, (name ++ ':' :: decText n).getLast? ≠ some ' ' := by
    intro name n
    rw [List.append_cons]
    exact hend _ n
  have hnil : ∀ n, (decText n).getLast? ≠ some ' ' := hend []
  rcases formatIface_text c netns ifindex os with ht | ⟨name, ht⟩ <;>
    rcases formatIface_text c' netns' ifindex' os' with ht' | ⟨name', ht'⟩ <;>
    rw [ht, ht'] at h
  · exact decText_inj (padded_inj (hnil _) (hnil _) h)
  · have heq := padded_inj (hnil _) (hcons _ _) h
    exact absurd (heq ▸ by simp) (hcolon ifindex)
  · have heq := padded_inj (hcons _ _) (hnil _) h
    exact absurd (heq ▸ by simp) (hcolon ifindex')
  · -- read from the end, the number is what stands before the first colon
    have heq := congrArg List.reverse (padded_inj (hcons _ _) (hcons _ _) h)
    simp only [List.reverse_append, List.reverse_cons, List.append_assoc, List.cons_append,
      List.nil_append] at heq
    have hdigits := (cut_at (fun hc => hcolon ifindex (List.mem_reverse.mp hc))
      (fun hc => hcolon ifindex' (List.mem_reverse.mp hc)) heq).1
    exact decText_inj (List.reverse_injective hdigits)

/-- The parts of a line that are not its time. -/
theorem cellsOf_padded_inj {time time' : List Char} {common common' metas metas' : List Cell}
    {tuple tuple' : List Char} (hc : common.length = common'.length)
    (hm : metas.length = metas'.length)
    (h : (cellsOf out time common metas tuple).map Cell.padded =
      (cellsOf out time' common' metas' tuple').map Cell.padded) :
    common.map Cell.padded = common'.map Cell.padded ∧
      (out.outputMeta → metas.map Cell.padded = metas'.map Cell.padded) ∧
      (out.outputTuple → tuple = tuple') := by
  unfold cellsOf at h
  simp only [List.map_append] at h
  obtain ⟨h, htuple⟩ := List.append_inj' h (by split <;> rfl)
  obtain ⟨h, hmetas⟩ := List.append_inj' h (by split <;> simp [hm])
  obtain ⟨-, hcommon⟩ := List.append_inj' h (by simp [hc])
  refine ⟨hcommon, fun hmeta => ?_, fun ht => ?_⟩
  · rwa [if_pos hmeta, if_pos hmeta] at hmetas
  · rw [if_pos ht, if_pos ht] at htuple
    have hpad : pad 0 tuple = pad 0 tuple' := (List.cons.inj htuple).1
    rwa [pad_zero, pad_zero] at hpad

/-- The events are the same, in what the options show of them: the numbers are equal, and
the tuples have one text; of a tuple with ports that text has everything but the flags. -/
structure SameShown (out : Out) (event event' : SkbEvent) : Prop where
  cpuId : event.cpuId = event'.cpuId
  pid : event.pid = event'.pid
  skbAddr : event.skbAddr = event'.skbAddr
  skbMeta : out.outputMeta → event.skbMeta = event'.skbMeta
  tupleText : out.outputTuple → formatTuple event.tuple = formatTuple event'.tuple
  tuple : out.outputTuple → HasPorts event.tuple → HasPorts event'.tuple →
    SameEnds event.tuple event'.tuple

/-- The six cells tell the metadata. -/
theorem skbMeta_of_cells {m m' : SkbMeta} {c c' : DevCache} {os os' : Option String}
    (h : ([⟨11, decText m.netns⟩, ⟨12, (formatIface c m.netns m.ifindex os).2⟩,
        ⟨6, decText m.mtu⟩, ⟨7, decText m.len⟩, ⟨8, protoText m.proto⟩,
        ⟨8, hexText m.mark.toNat⟩] : List Cell).map Cell.padded =
      ([⟨11, decText m'.netns⟩, ⟨12, (formatIface c' m'.netns m'.ifindex os').2⟩,
        ⟨6, decText m'.mtu⟩, ⟨7, decText m'.len⟩, ⟨8, protoText m'.proto⟩,
        ⟨8, hexText m'.mark.toNat⟩] : List Cell).map Cell.padded) : m = m' := by
  simp only [List.map_cons, List.map_nil, List.cons.injEq, and_true] at h
  obtain ⟨hnetns, hiface, hmtu, hlen, hproto, hmark⟩ := h
  have hnumber : ∀ {width n n'}, pad width (decText n) = pad width (decText n') → n = n' :=
    fun h => decText_inj (pad_inj (not_blank_decText _) (not_blank_decText _) h)
  have hmark := hexText_inj (pad_inj (not_blank_hexText _) (not_blank_hexText _) hmark)
  have hproto := protoText_inj (pad_inj (not_blank_protoText _) (not_blank_protoText _) hproto)
  obtain ⟨n, k, i, u, l, r⟩ := m
  obtain ⟨n', k', i', u', l', r'⟩ := m'
  obtain rfl : n = n' := hnumber hnetns
  obtain rfl : i = i' := ifindex_of_iface hiface
  obtain rfl : u = u' := hnumber hmtu
  obtain rfl : l = l' := hnumber hlen
  obtain rfl : r = r' := hproto
  obtain rfl : k = k' := BitVec.eq_of_toNat_eq hmark
  rfl

/-! ## Reading a packet -/

/-- The headers are of one family, and the addresses in them are the same. -/
def SameHosts : IpHeader → IpHeader → Prop
  | .v4 h, .v4 h' => h.saddr = h'.saddr ∧ h.daddr = h'.daddr
  | .v6 h, .v6 h' => h.saddr = h'.saddr ∧ h.daddr = h'.daddr
  | _, _ => False

/-- The packets have the same two endpoints and the same protocol. -/
structure SameFlow (pkt pkt' : Packet) : Prop where
  hosts : SameHosts pkt.ip pkt'.ip
  source : pkt.transport.source = pkt'.transport.source
  dest : pkt.transport.dest = pkt'.transport.dest
  proto : pkt.transport.proto = pkt'.transport.proto

/-- TCP or UDP. -/
def WithPorts (pkt : Packet) : Prop :=
  pkt.transport.proto = ipprotoTcp ∨ pkt.transport.proto = ipprotoUdp

theorem WithPorts.hasPorts {pkt : Packet} (h : WithPorts pkt) : HasPorts pkt.tuple where
  l3 := by
    show pkt.ip.etherType = _ ∨ pkt.ip.etherType = _
    cases pkt.ip with
    | v4 _ => exact Or.inl rfl
    | v6 _ => exact Or.inr rfl
  l4 := h

theorem addrBytes_ofBytes (b : Fin 16 → Byte) {i : Nat} (hi : i < 16) :
    addrBytes (Addr.ofBytes b) i = b ⟨i, hi⟩ := by
  have hword : ∀ (f : Nat → Byte) k, k < 8 →
      byteOf (BitVec.ofNat 64 (leNat f 8)).toNat k = f k := by
    intro f k hk
    have hlt : leNat f 8 < 2 ^ 64 := leNat_lt f 8
    rw [BitVec.toNat_ofNat, Nat.mod_eq_of_lt hlt, byteOf_leNat hk]
  unfold addrBytes Addr.ofBytes
  dsimp only
  split
  next hlow => rw [hword _ _ hlow, getD_ofFn _ hi]
  next hhigh =>
    have hsum : 8 + (i - 8) = i := by omega
    rw [hword _ _ (by omega), hsum, getD_ofFn _ hi]

/-- A stored IPv6 address tells the bytes of the packet. -/
theorem ofBytes_inj {b b' : Fin 16 → Byte} (h : Addr.ofBytes b = Addr.ofBytes b') : b = b' := by
  funext ⟨i, hi⟩
  rw [← addrBytes_ofBytes b hi, h, addrBytes_ofBytes b' hi]

/-- And so does an IPv4 address. -/
theorem ofV4_inj {b b' : Fin 4 → Byte} (h : (Addr.ofV4 b).v4addr = (Addr.ofV4 b').v4addr) :
    b = b' := by
  have hlow : ∀ (b : Fin 4 → Byte) i (hi : i < 4), addrBytes (Addr.ofV4 b) i = b ⟨i, hi⟩ := by
    intro b i hi
    exact (addrBytes_ofBytes (v4Bytes b) (by omega)).trans (dif_pos hi)
  funext ⟨i, hi⟩
  rw [← hlow b i hi, v4addr_eq_iff_bytes.mp h i hi, hlow b' i hi]

/-- The tuple has everything that makes a flow. -/
theorem sameFlow_of_ends {pkt pkt' : Packet} (h : SameEnds pkt.tuple pkt'.tuple) :
    SameFlow pkt pkt' where
  hosts := by
    have hl3 : pkt.ip.etherType = pkt'.ip.etherType := h.l3Proto
    have hs : SameAddress pkt.ip.etherType pkt.ip.saddr pkt'.ip.saddr := h.saddr
    have hd : SameAddress pkt.ip.etherType pkt.ip.daddr pkt'.ip.daddr := h.daddr
    cases hip : pkt.ip with
    | v4 hdr =>
      cases hip' : pkt'.ip with
      | v4 hdr' =>
        rw [hip, hip'] at hs hd
        exact ⟨ofV4_inj hs, ofV4_inj hd⟩
      | v6 hdr' =>
        rw [hip, hip'] at hl3
        exact absurd (show ethPIp = ethPIpv6 from hl3) (by decide)
    | v6 hdr =>
      cases hip' : pkt'.ip with
      | v4 hdr' =>
        rw [hip, hip'] at hl3
        exact absurd (show ethPIpv6 = ethPIp from hl3) (by decide)
      | v6 hdr' =>
        rw [hip, hip'] at hs hd
        exact ⟨ofBytes_inj hs, ofBytes_inj hd⟩
  source := htons_inj h.sport
  dest := htons_inj h.dport
  proto := h.l4Proto

/-- **A line tells the event.** If two narrow entries of one run are printed alike, they
show the same processor, process, skb and metadata, and one text of the tuple, if it is
shown. If their sk_buffs carry TCP or UDP packets then, these are of one flow: no two flows
share a line. -/
theorem line_determines (s s' : Printer) (event event' : SkbEvent) (o o' : Outside)
    {s₁ s₁' : Printer} (hout : s'.out = { s.out with startTs := s'.out.startTs })
    (h : printEntry s event o = some (s₁, line)) (h' : printEntry s' event' o' = some (s₁', line))
    (hn : ∀ x, s.texts event o = some x → Narrow s.out event x)
    (hn' : ∀ x, s'.texts event' o' = some x → Narrow s'.out event' x) :
    SameShown s.out event event' ∧
      (s.out.outputTuple → ∀ K m m' skb skb' prior prior' pkt pkt',
        event = setOutput K m skb prior → event' = setOutput K m' skb' prior' →
        Carries K m skb pkt → Carries K m' skb' pkt' → WithPorts pkt → WithPorts pkt' →
        SameFlow pkt pkt') := by
  obtain ⟨x, hx, -, rfl⟩ := texts_of_printEntry h
  obtain ⟨x', hx', -, hline⟩ := texts_of_printEntry h'
  have hfit := (entry_fits_iff _ _ _).mpr (hn x hx)
  have hfit' := (entry_fits_iff _ _ _).mpr (hn' x' hx')
  have hcells : entryCells s'.out event' x' = entryCells s.out event' x' := by
    rw [hout]
    rfl
  rw [hcells] at hline hfit'
  have hwidth := (cells_width s.out event x).symm.trans (cells_width s.out event' x')
  have hpadded := row_inj hwidth hfit hfit' hline
  obtain ⟨hcommon, hmetas, htuple⟩ := cellsOf_padded_inj (by rfl) (by rfl) hpadded
  simp only [List.map_cons, List.map_nil, List.cons.injEq, and_true] at hcommon
  obtain ⟨hcpu, hproc, hskb, -⟩ := hcommon
  obtain ⟨time, -, rfl⟩ := Option.map_eq_some_iff.mp hx
  obtain ⟨time', -, rfl⟩ := Option.map_eq_some_iff.mp hx'
  have hsame : SameShown s.out event event' := {
    cpuId := decText_inj (pad_inj (not_blank_decText _) (not_blank_decText _) hcpu)
    pid := pid_of_proc hproc
    skbAddr := BitVec.eq_of_toNat_eq
      (hexText_inj (pad_inj (not_blank_hexText _) (not_blank_hexText _) hskb))
    skbMeta := fun hmeta => skbMeta_of_cells (hmetas hmeta)
    tupleText := htuple
    tuple := fun ht hp hp' => (formatTuple_eq_iff hp hp').mp (htuple ht) }
  refine ⟨hsame, fun ht K m m' skb skb' prior prior' pkt pkt' hev hev' hc hc' hp hp' => ?_⟩
  have hpkt : event.tuple = pkt.tuple := by
    rw [hev]
    exact setTuple_carries hc prior.tuple
  have hpkt' : event'.tuple = pkt'.tuple := by
    rw [hev']
    exact setTuple_carries hc' prior'.tuple
  have hends := hsame.tuple ht (hpkt ▸ hp.hasPorts) (hpkt' ▸ hp'.hasPorts)
  rw [hpkt, hpkt'] at hends
  exact sameFlow_of_ends hends

/-- Events that differ in their timestamps may share a line. -/
theorem line_determines_short : ∃ s₁ s₂ line,
    printEntry metaPrinter (shortEvent 1) quietOutside = some (s₁, line) ∧
      printEntry metaPrinter (shortEvent 2) quietOutside = some (s₂, line) ∧
      SameShown metaPrinter.out (shortEvent 1) (shortEvent 2) := by
  obtain ⟨s₁, s₂, line, h₁, h₂⟩ : ∃ s₁ s₂ line,
      printEntry metaPrinter (shortEvent 1) quietOutside = some (s₁, line) ∧
        printEntry metaPrinter (shortEvent 2) quietOutside = some (s₂, line) :=
    ⟨_, _, _, rfl, rfl⟩
  obtain ⟨hsame, -⟩ := line_determines metaPrinter metaPrinter _ _ _ _ rfl h₁ h₂
    (shortEvent_narrow 1) (shortEvent_narrow 2)
  exact ⟨s₁, s₂, line, h₁, h₂, hsame⟩

end SkbTracer.Output
