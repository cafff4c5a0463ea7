import Reactor.BufferLines
import Reactor.Lib.Decoder

/-!
# The messages of the hub (`examples/hub/codec.cc`)

A message is a line `cmd topic`, for the command `pub` followed by a second line.

* `parseMessage` - as in the source.
* `HubCodec.decoder` - the messages of a byte stream; `parseMessage_eq`: one call takes one
  message out of the buffer, or says that the line has no space, or waits.
* `HubMessage.encode` - what the client and the hub write; `decodeOne_encode` - whatever lines
  were written, these are the messages read.
-/

namespace Reactor

open Reactor.Lib

inductive ParseResult where
  | kError
  | kSuccess
  | kContinue
deriving DecidableEq, Repr

/-- The strings that `parseMessage` fills in. -/
structure HubMessage where
  cmd : Bytes := []
  topic : Bytes := []
  content : Bytes := []
deriving DecidableEq, Repr

namespace HubCodec

/-- `"pub"`. -/
def pub : Bytes := [112, 117, 98]

/-- `"sub"`. -/
def sub : Bytes := [115, 117, 98]

/-- `"unsub"`. -/
def unsub : Bytes := [117, 110, 115, 117, 98]

/-- `' '`. -/
def space : UInt8 := 32

end HubCodec

open HubCodec

def parseMessage (buf : Buffer) : Except LineFault (ParseResult × HubMessage × Buffer) :=
  match buf.findCRLF with
  | some crlf =>
      let line := slice buf.buffer buf.readerIndex crlf
      let sp := buf.readerIndex + line.idxOf space
      if sp ≠ crlf then
        let cmd := slice buf.buffer buf.readerIndex sp
        let topic := slice buf.buffer (sp + 1) crlf
        if cmd = pub then do
          let start := crlf + 2
          match ← buf.findCRLFFrom start with
          | some crlf' =>
              let content := slice buf.buffer start crlf'
              let rest ← liftBuffer (buf.retrieveUntil (crlf' + 2))
              .ok (.kSuccess, ⟨cmd, topic, content⟩, rest)
          | none => .ok (.kContinue, ⟨cmd, topic, []⟩, buf)
        else do
          let rest ← liftBuffer (buf.retrieveUntil (crlf + 2))
          .ok (.kSuccess, ⟨cmd, topic, []⟩, rest)
      else .ok (.kError, {}, buf)
  | none => .ok (.kContinue, {}, buf)

namespace HubCodec

/-! ### The messages of a stream -/

/-- The first line has no space. -/
def Malformed (xs : Bytes) : Prop :=
  search kCRLF xs < xs.length ∧ space ∉ xs.take (search kCRLF xs)

instance (xs : Bytes) : Decidable (Malformed xs) := inferInstanceAs (Decidable (_ ∧ _))

/-- The first line is there and has a space. -/
def HasLine (xs : Bytes) : Prop :=
  search kCRLF xs < xs.length ∧ space ∈ xs.take (search kCRLF xs)

instance (xs : Bytes) : Decidable (HasLine xs) := inferInstanceAs (Decidable (_ ∧ _))

/-- The first line. -/
def line (xs : Bytes) : Bytes := xs.take (search kCRLF xs)

def cmd (xs : Bytes) : Bytes := (line xs).take ((line xs).idxOf space)

def topic (xs : Bytes) : Bytes := (line xs).drop ((line xs).idxOf space + 1)

/-- What follows the first line. -/
def behind (xs : Bytes) : Bytes := xs.drop (search kCRLF xs + 2)

/-- The first message of a stream, once all of it is there, and the bytes it takes. -/
def decodeOne (xs : Bytes) : Option (Unit × List HubMessage × Nat) :=
  if HasLine xs then
    if cmd xs = pub then
      if search kCRLF (behind xs) < (behind xs).length then
        some ((), [⟨cmd xs, topic xs, line (behind xs)⟩],
          search kCRLF xs + 2 + (search kCRLF (behind xs) + 2))
      else none
    else some ((), [⟨cmd xs, topic xs, []⟩], search kCRLF xs + 2)
  else none

theorem line_append {xs : Bytes} (h : search kCRLF xs < xs.length) (more : Bytes) :
    line (xs ++ more) = line xs := by
  rw [line, search_append h, List.take_append_of_le_length h.le, line]

theorem behind_append {xs : Bytes} (h : search kCRLF xs < xs.length) (more : Bytes) :
    behind (xs ++ more) = behind xs ++ more := by
  have hfits : search kCRLF xs + 2 ≤ xs.length := search_add_le h
  rw [behind, search_append h, List.drop_append_of_le_length hfits, behind]

theorem HasLine.append {xs : Bytes} (h : HasLine xs) (more : Bytes) : HasLine (xs ++ more) := by
  refine ⟨?_, ?_⟩
  · rw [search_append h.1, List.length_append]
    exact h.1.trans_le (Nat.le_add_right _ _)
  · have hline := line_append h.1 more
    rw [line] at hline
    rw [hline]
    exact h.2

/-- More input does not mend a line without a space. -/
theorem Malformed.append {xs : Bytes} (h : Malformed xs) (more : Bytes) : Malformed (xs ++ more) := by
  refine ⟨?_, ?_⟩
  · rw [search_append h.1, List.length_append]
    exact h.1.trans_le (Nat.le_add_right _ _)
  · have hline := line_append h.1 more
    rw [line] at hline
    rw [hline]
    exact h.2

theorem not_malformed_nil : ¬ Malformed [] := fun h => absurd h.1 (Nat.not_lt_zero _)

theorem length_behind (xs : Bytes) : (behind xs).length = xs.length - (search kCRLF xs + 2) :=
  List.length_drop

theorem decodeOne_consumes {xs : Bytes} {s' : Unit} {out : List HubMessage} {k : Nat}
    (h : decodeOne xs = some (s', out, k)) : 0 < k ∧ k ≤ xs.length := by
  unfold decodeOne at h
  split at h
  · rename_i hline
    have hfits : search kCRLF xs + 2 ≤ xs.length := search_add_le hline.1
    split at h
    · split at h
      · rename_i hcontent
        have hfits' : search kCRLF (behind xs) + 2 ≤ (behind xs).length := search_add_le hcontent
        rw [length_behind] at hfits'
        cases h
        omega
      · cases h
    · cases h
      omega
  · cases h

theorem decodeOne_extends {xs : Bytes} {r : Unit × List HubMessage × Nat}
    (h : decodeOne xs = some r) (more : Bytes) : decodeOne (xs ++ more) = some r := by
  unfold decodeOne at h
  split at h
  · rename_i hline
    have hsame := line_append hline.1 more
    have hbehind := behind_append hline.1 more
    have hcmd : cmd (xs ++ more) = cmd xs := by rw [cmd, hsame, cmd]
    have htopic : topic (xs ++ more) = topic xs := by rw [topic, hsame, topic]
    rw [decodeOne, if_pos (hline.append more), hcmd, htopic, hbehind, search_append hline.1]
    split at h
    · rename_i hpub
      split at h
      · rename_i hcontent
        have hlonger : search kCRLF (behind xs) < (behind xs ++ more).length := by
          rw [List.length_append]
          omega
        rw [if_pos hpub, search_append hcontent, if_pos hlonger, line_append hcontent]
        exact h
      · cases h
    · rename_i hpub
      rw [if_neg hpub]
      exact h
  · cases h

/-- The messages of a stream. -/
def decoder : Decoder Unit UInt8 HubMessage where
  step _ xs := decodeOne xs
  consumes h := decodeOne_consumes h
  extends_step h more := decodeOne_extends h more

theorem Malformed.waiting {xs : Bytes} (h : Malformed xs) : decodeOne xs = none :=
  if_neg fun hline => h.2 hline.2

/-! ### Parsing a buffer -/

section Parse

variable {b : Buffer}

/-- The strings of the first line, in the vector. -/
theorem slice_line (h : b.WF) (hfound : search kCRLF b.content < b.content.length) :
    slice b.buffer b.readerIndex (b.readerIndex + search kCRLF b.content) = line b.content :=
  Buffer.slice_content h hfound.le

theorem slice_cmd (h : b.WF) (hline : HasLine b.content) :
    slice b.buffer b.readerIndex (b.readerIndex + (line b.content).idxOf space) =
      cmd b.content := by
  have hlt : (line b.content).idxOf space < (line b.content).length :=
    List.idxOf_lt_length_of_mem hline.2
  have hlen : (line b.content).length = search kCRLF b.content := by
    rw [line, List.length_take, Nat.min_eq_left hline.1.le]
  have hle := search_le kCRLF b.content
  have hidx : (line b.content).idxOf space ≤ search kCRLF b.content := hlen ▸ hlt.le
  have htake : ∀ n ≤ search kCRLF b.content, (line b.content).take n = b.content.take n := by
    intro n hn
    rw [line, List.take_take, Nat.min_eq_left hn]
  rw [Buffer.slice_content h (hidx.trans hle), cmd, htake _ hidx]

theorem slice_topic (h : b.WF) (hline : HasLine b.content) :
    slice b.buffer (b.readerIndex + (line b.content).idxOf space + 1)
      (b.readerIndex + search kCRLF b.content) = topic b.content := by
  rw [Nat.add_assoc, Buffer.slice_content_mid h hline.1.le]
  rfl

theorem slice_behind (h : b.WF)
    (hcontent : search kCRLF (behind b.content) < (behind b.content).length) :
    slice b.buffer (b.readerIndex + search kCRLF b.content + 2)
      (b.readerIndex + (search kCRLF b.content + 2) + search kCRLF (behind b.content)) =
      line (behind b.content) := by
  have hlen := length_behind b.content
  rw [Nat.add_assoc, Nat.add_assoc, Buffer.slice_content_mid h (by omega), ← List.take_drop]
  rfl

/-- A line with a space, of any command but `pub`. -/
theorem parseMessage_line (h : b.WF) (hline : HasLine b.content) (hpub : cmd b.content ≠ pub) :
    ∃ rest, rest.WF ∧ rest.content = behind b.content ∧
      parseMessage b = .ok (.kSuccess, ⟨cmd b.content, topic b.content, []⟩, rest) := by
  have hlen : (line b.content).length = search kCRLF b.content := by
    rw [line, List.length_take, Nat.min_eq_left hline.1.le]
  have hlt : (line b.content).idxOf space < (line b.content).length :=
    List.idxOf_lt_length_of_mem hline.2
  obtain ⟨rest, hret, hwf, hrest⟩ := Buffer.retrieveUntil_content h (search_add_le hline.1)
  refine ⟨rest, hwf, hrest, ?_⟩
  rw [parseMessage, Buffer.findCRLF_eq h, if_pos hline.1]
  simp only [slice_line h hline.1]
  rw [if_pos (by omega), slice_cmd h hline, slice_topic h hline, if_neg hpub, Nat.add_assoc]
  rw [show search kCRLF b.content + 2 = search kCRLF b.content + kCRLF.length from rfl, hret]
  rfl

/-- A line of the command `pub`: the second line may be there or not. -/
theorem parseMessage_pub (h : b.WF) (hline : HasLine b.content) (hpub : cmd b.content = pub) :
    parseMessage b = (do
      match ← b.findCRLFFrom (b.readerIndex + search kCRLF b.content + 2) with
      | some crlf' =>
          let content :=
            slice b.buffer (b.readerIndex + search kCRLF b.content + 2) crlf'
          let rest ← liftBuffer (b.retrieveUntil (crlf' + 2))
          .ok (.kSuccess, ⟨pub, topic b.content, content⟩, rest)
      | none => .ok (.kContinue, ⟨pub, topic b.content, []⟩, b)) := by
  have hlen : (line b.content).length = search kCRLF b.content := by
    rw [line, List.length_take, Nat.min_eq_left hline.1.le]
  have hlt : (line b.content).idxOf space < (line b.content).length :=
    List.idxOf_lt_length_of_mem hline.2
  rw [parseMessage, Buffer.findCRLF_eq h, if_pos hline.1]
  simp only [slice_line h hline.1]
  rw [if_pos (by omega), slice_cmd h hline, slice_topic h hline, if_pos hpub, hpub]

/-- **One call of `parseMessage`** takes the first message of the content out of the buffer,
or leaves the buffer as it is: with an error where the first line has no space, else to wait
for more. -/
theorem parseMessage_eq (h : b.WF) :
    (∃ m k rest, decodeOne b.content = some ((), [m], k) ∧ rest.WF ∧
      rest.content = b.content.drop k ∧ parseMessage b = .ok (.kSuccess, m, rest)) ∨
    (decodeOne b.content = none ∧ ∃ m,
      parseMessage b = .ok (if Malformed b.content then .kError else .kContinue, m, b)) := by
  by_cases hfound : search kCRLF b.content < b.content.length
  · by_cases hspace : space ∈ line b.content
    · have hline : HasLine b.content := ⟨hfound, hspace⟩
      have hvalid : ¬ Malformed b.content := fun hbad => hbad.2 hspace
      by_cases hpub : cmd b.content = pub
      · have hfrom := Buffer.findCRLFFrom_eq h (search_add_le hfound)
        change b.findCRLFFrom (b.readerIndex + search kCRLF b.content + 2) =
          .ok (if search kCRLF (behind b.content) < (behind b.content).length then
            some (b.readerIndex + (search kCRLF b.content + 2) + search kCRLF (behind b.content))
            else none) at hfrom
        rw [parseMessage_pub h hline hpub, hfrom, ok_bind]
        by_cases hcontent : search kCRLF (behind b.content) < (behind b.content).length
        · left
          have hfits := search_add_le hcontent
          rw [length_behind] at hfits
          have hall : search kCRLF b.content + 2 + (search kCRLF (behind b.content) + 2) ≤
              b.content.length := by
            change search kCRLF (behind b.content) + 2 ≤ _ at hfits
            have hfirst : search kCRLF b.content + 2 ≤ b.content.length := search_add_le hfound
            omega
          obtain ⟨rest, hret, hwf, hrest⟩ := Buffer.retrieveUntil_content h hall
          refine ⟨⟨pub, topic b.content, line (behind b.content)⟩, _, rest, ?_, hwf, hrest, ?_⟩
          · rw [decodeOne, if_pos hline, if_pos hpub, if_pos hcontent, hpub]
          · simp only [if_pos hcontent, slice_behind h hcontent]
            have hend : b.readerIndex + (search kCRLF b.content + 2) +
                search kCRLF (behind b.content) + 2 = b.readerIndex +
                  (search kCRLF b.content + 2 + (search kCRLF (behind b.content) + 2)) := by
              omega
            rw [hend, hret]
            rfl
        · right
          refine ⟨?_, ⟨pub, topic b.content, []⟩, ?_⟩
          · rw [decodeOne, if_pos hline, if_pos hpub, if_neg hcontent]
          · simp only [if_neg hcontent, if_neg hvalid]
      · left
        obtain ⟨rest, hwf, hrest, hparse⟩ := parseMessage_line h hline hpub
        refine ⟨_, _, rest, ?_, hwf, hrest, hparse⟩
        rw [decodeOne, if_pos hline, if_neg hpub]
    · right
      have hbad : Malformed b.content := ⟨hfound, hspace⟩
      have hidx : (line b.content).idxOf space = search kCRLF b.content := by
        rw [List.idxOf_of_notMem hspace, line, List.length_take, Nat.min_eq_left hfound.le]
      refine ⟨hbad.waiting, {}, ?_⟩
      rw [parseMessage, Buffer.findCRLF_eq h, if_pos hfound]
      simp only [slice_line h hfound]
      rw [hidx, if_neg (by simp), if_pos hbad]
  · right
    have hvalid : ¬ Malformed b.content := fun hbad => hfound hbad.1
    refine ⟨if_neg fun hline => hfound hline.1, {}, ?_⟩
    rw [parseMessage, Buffer.findCRLF_eq h, if_neg hfound, if_neg hvalid]

end Parse

/-! ### What is written -/

end HubCodec

/-- A message on the wire: `"cmd topic\r\n"`, and `"content\r\n"` behind it for `pub`. -/
def HubMessage.encode (m : HubMessage) : Bytes :=
  m.cmd ++ space :: m.topic ++ kCRLF ++ if m.cmd = pub then m.content ++ kCRLF else []

/-- The strings of a message are lines, and the command is a word. -/
structure HubMessage.WF (m : HubMessage) : Prop where
  cmd : space ∉ m.cmd ∧ 13 ∉ m.cmd
  topic : IsLine m.topic
  content : IsLine m.content
  empty : m.cmd ≠ pub → m.content = []

namespace HubCodec

section Encode

variable {m : HubMessage}

/-- The first line of what was written. -/
theorem search_encode (h : m.WF) (more : Bytes) :
    search kCRLF (m.encode ++ more) = (m.cmd ++ space :: m.topic).length ∧
      line (m.encode ++ more) = m.cmd ++ space :: m.topic ∧
      behind (m.encode ++ more) = (if m.cmd = pub then m.content ++ kCRLF else []) ++ more := by
  have htopic : IsLine (space :: m.topic) := h.topic.append (by decide : 13 ∉ [space])
  have hline : IsLine (m.cmd ++ space :: m.topic) := htopic.append h.cmd.2
  have hsearch : search kCRLF (m.encode ++ more) = (m.cmd ++ space :: m.topic).length := by
    rw [HubMessage.encode, List.append_assoc]
    exact hline.search_eq _
  have hcrlf : (m.cmd ++ space :: m.topic ++ kCRLF).length =
      (m.cmd ++ space :: m.topic).length + 2 := List.length_append
  refine ⟨hsearch, ?_, ?_⟩
  · rw [line, hsearch, HubMessage.encode, List.append_assoc, List.append_assoc, List.take_left]
  · rw [behind, hsearch, HubMessage.encode, List.append_assoc, List.drop_left' hcrlf]

/-- The message is read back, whatever follows it. -/
theorem decodeOne_encode (h : m.WF) (more : Bytes) :
    decodeOne (m.encode ++ more) = some ((), [m], m.encode.length) := by
  obtain ⟨hsearch, hline, hbehind⟩ := search_encode h more
  have hidx : (m.cmd ++ space :: m.topic).idxOf space = m.cmd.length := by
    rw [List.idxOf_append_of_notMem h.cmd.1, List.idxOf_cons_self, Nat.add_zero]
  have hcmd : cmd (m.encode ++ more) = m.cmd := by
    rw [cmd, hline, hidx, List.take_left]
  have htopic : topic (m.encode ++ more) = m.topic := by
    rw [topic, hline, hidx, List.append_cons, List.drop_left' (by simp)]
  have hlen : m.encode.length = (m.cmd ++ space :: m.topic).length + 2 +
      (if m.cmd = pub then m.content ++ kCRLF else []).length := by
    rw [HubMessage.encode, List.length_append, List.length_append]
    rfl
  have hhas : HasLine (m.encode ++ more) := by
    refine ⟨?_, ?_⟩
    · have hall : (m.encode ++ more).length = m.encode.length + more.length :=
        List.length_append
      rw [hsearch, hall]
      omega
    · change space ∈ line (m.encode ++ more)
      rw [hline]
      simp
  rw [decodeOne, if_pos hhas, hcmd, htopic, hbehind, hsearch, hlen]
  by_cases hpub : m.cmd = pub
  · have hcontent : search kCRLF (m.content ++ kCRLF ++ more) = m.content.length :=
      h.content.search_eq more
    have hsecond : line (m.content ++ kCRLF ++ more) = m.content := by
      rw [line, hcontent, List.append_assoc, List.take_left]
    have hlt : m.content.length < (m.content ++ kCRLF ++ more).length := by
      simp [kCRLF]
    have hsum : (m.content ++ kCRLF).length = m.content.length + 2 := List.length_append
    simp only [if_pos hpub, hcontent, hsecond, if_pos hlt, hsum]
  · have hm : (⟨m.cmd, m.topic, []⟩ : HubMessage) = m := by rw [← h.empty hpub]
    simp only [if_neg hpub, hm]
    rfl

/-- What is read consists of lines, so it can be passed on. -/
theorem decodeOne_lines {xs : Bytes} {s : Unit} {k : Nat} (h : decodeOne xs = some (s, [m], k)) :
    IsLine m.topic ∧ IsLine m.content := by
  have hempty : IsLine [] := rfl
  unfold decodeOne at h
  split at h
  · rename_i hline
    have htopic : IsLine (topic xs) := (isLine_take hline.1).drop _
    split at h
    · split at h
      · rename_i hcontent
        cases h
        exact ⟨htopic, isLine_take hcontent⟩
      · cases h
    · cases h
      exact ⟨htopic, hempty⟩
  · cases h

/-- Whatever messages were written one after another, these are decoded. -/
theorem run_encode {ms : List HubMessage} (h : ∀ m ∈ ms, m.WF) (more : Bytes) :
    decoder.Run () (ms.flatMap HubMessage.encode ++ more) ms () more := by
  have hall := Decoder.Run.flatMap (d := decoder) (s := ()) HubMessage.encode (fun m => [m]) ms ?_ more
  · rwa [List.flatMap_singleton'] at hall
  · intro m hm more
    have hstep := Decoder.Run.single (d := decoder) (s := ()) (decodeOne_encode (h m hm) more)
    rwa [List.drop_left] at hstep

/-- Where only a part of what was written has arrived, what was read are the first messages, and
the rest is the beginning of one. -/
theorem run_part {ms ms' : List HubMessage} {xs ys : Bytes} (hwf : ∀ m ∈ ms', m.WF)
    (hrun : decoder.Run () xs ms () ys) (hpart : xs <+: ms'.flatMap HubMessage.encode) :
    ms <+: ms' ∧ ¬ Malformed ys ∧ (xs = ms'.flatMap HubMessage.encode →
      decoder.Waiting () ys → ms = ms' ∧ ys = []) := by
  have hall := run_encode hwf []
  rw [List.append_nil] at hall
  have hdec := hall.eq_decode (Decoder.waiting_nil ())
  obtain ⟨more, hmore⟩ := hpart
  have hmine := hrun.append more
  rw [hmore] at hmine
  refine ⟨?_, fun hbad => ?_, fun heq hwait => ?_⟩
  · have hfirst := hmine.items_first
    rwa [hdec] at hfirst
  · have hbad' := hbad.append more
    have hsame := (hmine.eq_decode hbad'.waiting).symm.trans hdec
    rw [Decoded.mk.injEq] at hsame
    rw [hsame.2.2] at hbad'
    exact not_malformed_nil hbad'
  · rw [heq] at hrun
    have hsame := (hrun.eq_decode hwait).symm.trans hdec
    rw [Decoded.mk.injEq] at hsame
    exact ⟨hsame.1, hsame.2.2⟩

end Encode

end HubCodec

end Reactor
