import OpenGda.Bootstrap.Pmi2Codec

set_option autoImplicit false

-- publish_blob and fetch_blob over any PMI2_KVS_Get that keeps to its promise, and the
-- limit up to which a blob comes back.
namespace OpenGda.Pmi2

open FencedStore

-- What a call makes of the buffer, and vallen; `none` is a return code other than success.
abbrev KvsGet := Text → Option (Text × Int)

def fetchAttemptsOver (get : KvsGet) (key : Text) : Nat → Text → Except String Blob
  | 0, _ => .error ("BootstrapPMI2::fetch_blob: value for " ++ String.ofList key ++ " exceeds max buffer (4 MiB)")
  | attempts + 1, buf =>
      match get buf with
      | none => .error ("BootstrapPMI2::fetch_blob: KVS_Get(" ++ String.ofList key ++ ") failed")
      | some (buf, vallen) =>
          if vallen < 0 then .error ("BootstrapPMI2::fetch_blob: negative vallen for " ++ String.ofList key)
          else if vallen < buf.length then hexDecode (buf.take (trimNuls buf vallen.toNat))
          else fetchAttemptsOver get key attempts (buf ++ List.replicate (buf.length * 3) nul)

def fetchBlobOver (get : KvsGet) (key : Text) : Except String Blob :=
  fetchAttemptsOver get key 4 (List.replicate (16 * 1024) nul)

-- It succeeds, tells the length with or without the NUL, stays within the buffer, and
-- fills in the value and its NUL where both have room.
def Serves (get : KvsGet) (value : Text) : Prop :=
  ∀ buf, ∃ filled vallen, get buf = some (filled, vallen) ∧ filled.length = buf.length ∧
    (vallen = value.length ∨ vallen = value.length + 1) ∧
      (value.length < buf.length → ∃ rest, filled = value ++ nul :: rest)

-- "exceeds max buffer (4 MiB)"
def documentedMax : Nat := 4 * 1024 * 1024

structure RoundTrip (get : KvsGet) (key value : Text) (data : Blob) : Prop where
  whole : value.length + 1 ≤ documentedMax → fetchBlobOver get key = .ok data
  longer : documentedMax < value.length + 1 → ∃ error, fetchBlobOver get key = .error error

theorem decode_served (data : Blob) (filled rest : Text) (vallen : Int) (full : filled = hexEncode data ++ nul :: rest)
    (length : vallen = (hexEncode data).length ∨ vallen = (hexEncode data).length + 1) :
    hexDecode (filled.take (trimNuls filled vallen.toNat)) = .ok data := by
  obtain ⟨whole, counts⟩ := trim_value (hexEncode data) rest (hex_encode_no_nul data)
  have trimmed : trimNuls filled vallen.toNat = (hexEncode data).length := by
    rw [full]
    rcases length with rfl | rfl
    · exact whole
    · exact counts
  rw [trimmed, full, List.take_left' rfl, hex_decode_encode]

theorem attempts_outcome (get : KvsGet) (key : Text) (data : Blob) (serves : Serves get (hexEncode data)) (attempts : Nat)
    (buf : Text) (even : buf.length % 2 = 0) :
    fetchAttemptsOver get key attempts buf = .ok data ∧
        (∃ turn < attempts, (hexEncode data).length < buf.length * 4 ^ turn) ∨
      (∃ error, fetchAttemptsOver get key attempts buf = .error error) ∧
        ∀ turn < attempts, buf.length * 4 ^ turn ≤ (hexEncode data).length := by
  induction attempts generalizing buf with
  | zero => exact .inr ⟨⟨_, rfl⟩, fun turn less => absurd less (Nat.not_lt_zero turn)⟩
  | succ attempts ih =>
      obtain ⟨filled, vallen, got, size, reported, fits⟩ := serves buf
      have length := hex_encode_length data
      have room : vallen < filled.length ↔ (hexEncode data).length < buf.length := by
        rw [size]
        omega
      rw [fetchAttemptsOver, got]
      simp only
      rw [if_neg (by omega)]
      by_cases short : (hexEncode data).length < buf.length
      · obtain ⟨rest, full⟩ := fits short
        rw [if_pos (room.mpr short), decode_served data filled rest vallen full reported]
        exact .inl ⟨rfl, 0, Nat.succ_pos attempts, by simpa using short⟩
      · rw [if_neg fun less => short (room.mp less)]
        have longer : (filled ++ List.replicate (filled.length * 3) nul).length = buf.length * 4 := by
          rw [List.length_append, List.length_replicate, size]
          omega
        have later := ih (filled ++ List.replicate (filled.length * 3) nul) (by omega)
        rw [longer] at later
        rcases later with ⟨found, turn, inside, more⟩ | ⟨fails, none⟩
        · refine .inl ⟨found, turn + 1, Nat.succ_lt_succ inside, ?_⟩
          rwa [Nat.pow_succ', ← Nat.mul_assoc]
        · refine .inr ⟨fails, ?_⟩
          intro turn inside
          cases turn with
          | zero => simpa using Nat.le_of_not_lt short
          | succ turn =>
              rw [Nat.pow_succ', ← Nat.mul_assoc]
              exact none turn (Nat.lt_of_succ_lt_succ inside)

theorem blob_outcome (get : KvsGet) (key : Text) (data : Blob) (serves : Serves get (hexEncode data)) :
    fetchBlobOver get key = .ok data ∧ data.length < maxBlob ∨
      (∃ error, fetchBlobOver get key = .error error) ∧ maxBlob ≤ data.length := by
  have length := hex_encode_length data
  have buffer : (List.replicate (16 * 1024) nul).length = 16384 := List.length_replicate
  have outcomes := attempts_outcome get key data serves 4 (List.replicate (16 * 1024) nul) (by rw [buffer])
  rw [buffer] at outcomes
  rcases outcomes with ⟨found, turn, inside, fits⟩ | ⟨fails, none⟩
  · refine .inl ⟨found, ?_⟩
    unfold maxBlob
    interval_cases turn <;> omega
  · have last := none 3 (by decide)
    refine .inr ⟨fails, ?_⟩
    unfold maxBlob
    omega

def storeGet (counted : NulCounted) (rank : Nat) (key : Text) (found : Option Text) : KvsGet := fun buf =>
  found.map fun value => (fillBuffer buf value, if counted rank key then value.length + 1 else value.length)

theorem store_serves (counted : NulCounted) (rank : Nat) (key value : Text) :
    Serves (storeGet counted rank key (some value)) value := by
  intro buf
  refine ⟨_, _, rfl, fill_buffer_length buf value, ?_, fun room => ⟨_, fill_buffer buf value room⟩⟩
  split
  · exact .inr rfl
  · exact .inl rfl

theorem round_trip_iff (get : KvsGet) (key value : Text) (data : Blob)
    (published : publishBlob key data = .put key value (.done ())) (serves : Serves get value) :
    RoundTrip get key value data ↔ data.length < maxBlob ∨ documentedMax < value.length + 1 := by
  cases published
  have length := hex_encode_length data
  rcases blob_outcome get key data serves with ⟨found, small⟩ | ⟨⟨error, fails⟩, large⟩
  · refine iff_of_true ⟨fun _ => found, ?_⟩ (.inl small)
    intro longer
    unfold documentedMax at longer
    unfold maxBlob at small
    omega
  · constructor
    · intro trip
      by_contra neither
      obtain ⟨_, fits⟩ := not_or.mp neither
      have whole := trip.whole (Nat.le_of_not_lt fits)
      rw [fails] at whole
      cases whole
    · rintro (small | longer)
      · exact absurd small (Nat.not_lt.mpr large)
      · exact ⟨fun fits => absurd longer (Nat.not_lt.mpr fits), fun _ => ⟨error, fails⟩⟩

theorem two_bytes_come_back : RoundTrip (storeGet (fun _ _ => true) 0 ['k'] (some (hexEncode [7, 171]))) ['k']
    (hexEncode [7, 171]) [7, 171] :=
  (round_trip_iff _ ['k'] (hexEncode [7, 171]) [7, 171] rfl (store_serves (fun _ _ => true) 0 ['k'] _)).mpr
    (.inl (by decide))

-- Half a MiB: its hex text with the NUL is far below 4 MiB, and one byte too long for 1 MiB.
def halfMebibyte : Blob := List.replicate (512 * 1024) 0

theorem half_mebibyte_throws :
    ¬ RoundTrip (storeGet (fun _ _ => true) 0 ['k'] (some (hexEncode halfMebibyte))) ['k'] (hexEncode halfMebibyte)
      halfMebibyte := by
  have size : halfMebibyte.length = 512 * 1024 := List.length_replicate
  intro trip
  have whole := trip.whole (by rw [hex_encode_length, size]; decide)
  rcases blob_outcome _ ['k'] halfMebibyte (store_serves (fun _ _ => true) 0 ['k'] _) with
    ⟨_, small⟩ | ⟨⟨error, fails⟩, _⟩
  · rw [size] at small
    exact absurd small (Nat.lt_irrefl _)
  · rw [fails] at whole
    cases whole

theorem attempts_over (counted : NulCounted) (rank : Nat) (key : Text) (answers : Text → Option Text) (attempts : Nat)
    (buf : Text) : outcome answers (fetchAttempts counted rank key attempts buf) =
      fetchAttemptsOver (storeGet counted rank key (answers key)) key attempts buf := by
  induction attempts generalizing buf with
  | zero => rfl
  | succ attempts ih =>
      rw [fetchAttempts, kvsGet, Prog.bind, outcome, fetchAttemptsOver, storeGet]
      cases answer : answers key with
      | none => rfl
      | some value =>
          rw [answer] at ih
          simp only [Option.map_some, Prog.bind]
          generalize (if counted rank key then (value.length : Int) + 1 else value.length) = vallen
          by_cases negative : vallen < 0
          · rw [if_pos negative, if_pos negative]
            rfl
          · rw [if_neg negative, if_neg negative]
            by_cases room : vallen < (fillBuffer buf value).length
            · rw [if_pos room, if_pos room]
              cases hexDecode ((fillBuffer buf value).take (trimNuls (fillBuffer buf value) vallen.toNat)) <;> rfl
            · rw [if_neg room, if_neg room]
              exact ih _

theorem fetch_blob_outcome (counted : NulCounted) (rank : Nat) (key : Text) (answers : Text → Option Text)
    (data : Blob) (answer : answers key = some (hexEncode data)) (blob : Blob) :
    outcome answers (fetchBlob counted rank key) = .ok blob ↔ blob = data ∧ data.length < maxBlob := by
  rw [fetchBlob, attempts_over, answer, ← fetchBlobOver]
  rcases blob_outcome _ key data (store_serves counted rank key (hexEncode data)) with
    ⟨found, small⟩ | ⟨⟨error, fails⟩, large⟩
  · rw [found]
    constructor
    · rintro ⟨⟩
      exact ⟨rfl, small⟩
    · rintro ⟨rfl, _⟩
      rfl
  · rw [fails]
    constructor
    · rintro ⟨⟩
    · rintro ⟨_, small⟩
      exact absurd small (Nat.not_lt.mpr large)

end OpenGda.Pmi2
