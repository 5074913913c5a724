import LightNfs.Basic

/-!
# The record stream of a connection

`RecordStream` cuts what a connection receives into records (RFC 5531 record marking). Bytes come from the
socket until the stream is upgraded and from the TLS session afterwards; what was received and not yet
consumed stays in the receive buffer across the upgrade. Each received byte remembers where it came from.
The marks are only reasoned about: no function of the stream looks at them.
-/

namespace LightNfs

/-- A received byte. -/
structure Octet where
  value : UInt8
  fromTls : Bool
deriving DecidableEq

/-- What one call that receives returns: at least one byte, `EINTR` or `EAGAIN`, or an error, the orderly end
of the connection included. -/
inductive Recv where
  | data (first : UInt8) (rest : Bytes)
  | again
  | fail (e : Errno)
deriving DecidableEq

/-- Why a read has no result: an error, or nothing more has arrived and the reader waits. -/
inductive Stop where
  | errno (e : Errno)
  | blocked
deriving DecidableEq

/-- `BufferPool::kMedium`, the size of a receive buffer. -/
def kMedium : Nat := 65536

/-- `RecordStream`. The buffer is what it holds between `roff_` and `rend_`; `filled` is `rend_`, at the end of
the buffer when there is none. `socket` and `session` are what the calls of `uring_recv` and of `TlsConn::read`
are still going to return. -/
structure RecordStream where
  unread : List Octet := []
  filled : Nat := kMedium
  tls : Bool := false
  socket : List Recv
  session : List Recv
deriving DecidableEq

/-- A reassembled record, with the markers its fragments had. -/
structure Record where
  marks : List Octet := []
  body : List Octet := []
deriving DecidableEq

namespace Record

def octets (rec : Record) : List Octet := rec.marks ++ rec.body

def bytes (rec : Record) : Bytes := rec.body.map Octet.value

end Record

namespace RecordStream

def kMaxFragments : Nat := 1024

/-- One receive into a buffer with some room; what does not fit stays for the next one. -/
def receive (room : Nat) (fromTls : Bool) : List Recv → Except Stop (List Octet × List Recv)
  | [] => .error .blocked
  | .again :: rest => receive room fromTls rest
  | .fail e :: _ => .error (.errno e)
  | .data b bs :: rest =>
    .ok (((b :: bs).take room).map (⟨·, fromTls⟩),
      match (b :: bs).drop room with
      | [] => rest
      | c :: cs => .data c cs :: rest)

/-- `fill`, called once everything received so far has been consumed. -/
def fill (s : RecordStream) : Except Stop RecordStream :=
  let filled := if s.filled = kMedium then 0 else s.filled
  match receive (kMedium - filled) s.tls (if s.tls then s.session else s.socket) with
  | .error e => .error e
  | .ok (got, rest) =>
    .ok { s with
      unread := got
      filled := filled + got.length
      socket := if s.tls then s.socket else rest
      session := if s.tls then rest else s.session }

/-- The next byte, received first if the buffer is used up. -/
def readByte (s : RecordStream) : Except Stop (Octet × RecordStream) :=
  match s.unread with
  | b :: rest => .ok (b, { s with unread := rest })
  | [] =>
    match s.fill with
    | .error e => .error e
    | .ok s' =>
      match s'.unread with
      | b :: rest => .ok (b, { s' with unread := rest })
      | [] => .error .blocked

/-- `need` bytes, in as many slices as the buffers they are in. -/
def readBytes : Nat → RecordStream → Except Stop (List Octet × RecordStream)
  | 0, s => .ok ([], s)
  | need + 1, s =>
    match s.readByte with
    | .error e => .error e
    | .ok (b, s) =>
      match readBytes need s with
      | .error e => .error e
      | .ok (bs, s) => .ok (b :: bs, s)

/-- A big-endian word. -/
def be32 (bytes : Bytes) : UInt32 := bytes.foldl (fun v b => v * 256 + b.toUInt32) 0

/-- The end of the connection in the middle of a fragment is a framing error. -/
def bodyStop : Stop → Stop
  | .errno .eof => .errno .badmsg
  | e => e

/-- The loop of `read_record`, with the number of fragments the record may still have. -/
def readFragments (maxFragment maxRecord : Nat) : Nat → Record → RecordStream → Except Stop (Record × RecordStream)
  | left, rec, s =>
    match s.readBytes 4 with
    | .error e => .error e
    | .ok (mark, s) =>
      let hdr := be32 (mark.map Octet.value)
      let len := (hdr &&& 0x7fffffff).toNat
      match left with
      | 0 => .error (.errno .msgsize)
      | left + 1 =>
        if len > maxFragment ∨ rec.body.length + len > maxRecord then .error (.errno .msgsize)
        else
          match s.readBytes len with
          | .error e => .error (bodyStop e)
          | .ok (bytes, s) =>
            let longer : Record := ⟨rec.marks ++ mark, rec.body ++ bytes⟩
            if hdr &&& 0x80000000 ≠ 0 then .ok (longer, s) else readFragments maxFragment maxRecord left longer s

def readRecord (maxFragment maxRecord : Nat) (s : RecordStream) : Except Stop (Record × RecordStream) :=
  readFragments maxFragment maxRecord kMaxFragments {} s

def setTls (s : RecordStream) : RecordStream := { s with tls := true }

/-! ### Where the bytes of a record come from -/

/-- Everything the stream is going to hand out satisfies `p`: the buffered bytes, and any byte received from
where it receives now. -/
structure Supplies (p : Octet → Prop) (s : RecordStream) : Prop where
  buffered : ∀ o ∈ s.unread, p o
  fresh : ∀ v, p ⟨v, s.tls⟩

section Supplies

variable {p : Octet → Prop} {s s' : RecordStream}

theorem receive_supplies {room : Nat} {fromTls : Bool} {script rest : List Recv} {got : List Octet}
    (hfresh : ∀ v, p ⟨v, fromTls⟩) (h : receive room fromTls script = .ok (got, rest)) : ∀ o ∈ got, p o := by
  induction script with
  | nil => cases h
  | cons r script ih =>
    cases r with
    | again => exact ih h
    | fail e => cases h
    | data b bs =>
      simp only [receive, Except.ok.injEq, Prod.mk.injEq] at h
      obtain ⟨rfl, -⟩ := h
      intro o ho
      obtain ⟨v, -, rfl⟩ := List.mem_map.mp ho
      exact hfresh v

theorem fill_supplies (hs : s.Supplies p) (h : s.fill = .ok s') : s'.Supplies p ∧ s'.tls = s.tls := by
  simp only [fill] at h
  split at h
  · cases h
  · next got rest hgot =>
    cases h
    exact ⟨⟨receive_supplies hs.fresh hgot, hs.fresh⟩, rfl⟩

theorem readByte_supplies {b : Octet} (hs : s.Supplies p) (h : s.readByte = .ok (b, s')) :
    p b ∧ s'.Supplies p ∧ s'.tls = s.tls := by
  simp only [readByte] at h
  split at h
  · next b' rest hunread =>
    cases h
    exact ⟨hs.buffered b (by simp [hunread]), ⟨fun o ho => hs.buffered o (by simp [hunread, ho]), hs.fresh⟩, rfl⟩
  · split at h
    · cases h
    · next s₁ hfill =>
      obtain ⟨hs₁, htls⟩ := fill_supplies hs hfill
      split at h
      · next b' rest hunread =>
        cases h
        exact ⟨hs₁.buffered b (by simp [hunread]),
          ⟨fun o ho => hs₁.buffered o (by simp [hunread, ho]), hs₁.fresh⟩, htls⟩
      · cases h

theorem readBytes_supplies {need : Nat} {bs : List Octet} (hs : s.Supplies p) (h : readBytes need s = .ok (bs, s')) :
    (∀ o ∈ bs, p o) ∧ s'.Supplies p ∧ s'.tls = s.tls := by
  induction need generalizing s bs with
  | zero =>
    cases h
    exact ⟨by simp, hs, rfl⟩
  | succ need ih =>
    simp only [readBytes] at h
    split at h
    · cases h
    · next b s₁ hbyte =>
      obtain ⟨hb, hs₁, htls⟩ := readByte_supplies hs hbyte
      split at h
      · cases h
      · next bs' s₂ hrest =>
        cases h
        obtain ⟨hbs, hs₂, htls'⟩ := ih hs₁ hrest
        exact ⟨List.forall_mem_cons.mpr ⟨hb, hbs⟩, hs₂, htls'.trans htls⟩

theorem readFragments_supplies {maxFragment maxRecord left : Nat} {rec rec' : Record} (hs : s.Supplies p)
    (hrec : ∀ o ∈ rec.octets, p o) (h : readFragments maxFragment maxRecord left rec s = .ok (rec', s')) :
    (∀ o ∈ rec'.octets, p o) ∧ s'.Supplies p ∧ s'.tls = s.tls := by
  induction left generalizing s rec with
  | zero =>
    rw [readFragments] at h
    split at h <;> cases h
  | succ left ih =>
    rw [readFragments] at h
    split at h
    · cases h
    · next mark s₁ hmark =>
      obtain ⟨hmarks, hs₁, htls₁⟩ := readBytes_supplies hs hmark
      dsimp only at h
      split at h
      · cases h
      · split at h
        · cases h
        · next bytes s₂ hbytes =>
          obtain ⟨hbody, hs₂, htls₂⟩ := readBytes_supplies hs₁ hbytes
          have hrec' : ∀ o ∈ (⟨rec.marks ++ mark, rec.body ++ bytes⟩ : Record).octets, p o := by
            intro o ho
            simp only [Record.octets, List.mem_append] at ho hrec
            grind
          split at h
          · cases h
            exact ⟨hrec', hs₂, htls₂.trans htls₁⟩
          · obtain ⟨hout, hs₃, htls₃⟩ := ih hs₂ hrec' h
            exact ⟨hout, hs₃, htls₃.trans (htls₂.trans htls₁)⟩

theorem readRecord_supplies {maxFragment maxRecord : Nat} {rec : Record} (hs : s.Supplies p)
    (h : s.readRecord maxFragment maxRecord = .ok (rec, s')) :
    (∀ o ∈ rec.octets, p o) ∧ s'.Supplies p ∧ s'.tls = s.tls :=
  readFragments_supplies hs (by simp [Record.octets]) h

end Supplies

end RecordStream

end LightNfs
