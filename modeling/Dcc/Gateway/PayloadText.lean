import Dcc.Rest.Buffer

/-!
# Strings in gateway payloads and command bodies

The gateway and the command builders write a caller's text as a JSON string, each with an escaper
of its own.  The parser delimits such a string at its closing quote and decodes it to the text, so
no text ends its string early (`escaped_strings_decode`).
-/

namespace Dcc.Gateway

open Dcc.Json Grammar Rest

/-- One byte of `dcc_gateway_payload_buffer_append_json_string`. -/
def escapePayloadByte (c : UInt8) : Bytes :=
  if c = chQuote ∨ c = chBackslash then [chBackslash, c]
  else if c = 0x08 then [chBackslash, 0x62]
  else if c = 0x0c then [chBackslash, 0x66]
  else if c = 0x0a then [chBackslash, 0x6e]
  else if c = 0x0d then [chBackslash, 0x72]
  else if c = 0x09 then [chBackslash, 0x74]
  else if c < 0x20 then
    [chBackslash, 0x75, 0x30, 0x30, lowerHexDigit (c >>> 4), lowerHexDigit (c &&& 0x0f)]
  else [c]

/-- What `dcc_gateway_payload_buffer_append_json_string` appends; a null pointer is the empty
text. -/
def payloadJsonString (value : Option Bytes) : Bytes :=
  chQuote :: ((value.getD []).flatMap escapePayloadByte ++ [chQuote])

/-- A JSON string that the parser reads as a text: in front of anything it is delimited at its last
byte, and its span decodes to the text in every buffer with room for it and a terminator. -/
def ReadsAs (token text : Bytes) : Prop :=
  ∃ raw, token = chQuote :: (raw ++ [chQuote]) ∧ (∀ rest, ∃ escaped, findStringEnd (token ++ rest) =
      some ⟨raw ++ chQuote :: rest, chQuote :: rest, escaped⟩) ∧
    ∀ outCap, text.length < outCap → decodeStringSpan raw outCap = some text

theorem readsAs_of_chars {raw : Bytes} {cs : List Char} (h : Chars raw cs) :
    ReadsAs (chQuote :: (raw ++ [chQuote])) (utf8 cs) := by
  refine ⟨raw, rfl, fun rest => ?_, fun outCap hroom => decode_complete h (Nat.le_refl _) hroom⟩
  obtain ⟨escaped, hspan, -⟩ := findStringEnd_complete h rest
  exact ⟨escaped, by simpa using hspan⟩

theorem spells_escapePayload (c : Char) : Spells ((encode c).flatMap escapePayloadByte) c := by
  refine spells_of_escape (fun b hb => ?_) (fun n hn => ?_) c
  · rw [escapePayloadByte, escapeByte, if_neg hb, if_neg hb]
    by_cases hquote : b = chQuote
    · simp [hquote]
    · by_cases hback : b = chBackslash <;> simp [hquote, hback]
  · have hall : ∀ n < 0x20, escapePayloadByte (UInt8.ofNat n) = escapeByte (UInt8.ofNat n) ∨
        escapePayloadByte (UInt8.ofNat n) = [chBackslash, 0x75, 0x30, 0x30,
            lowerHexDigit (UInt8.ofNat n >>> 4), lowerHexDigit (UInt8.ofNat n &&& 0x0f)] ∧
          parseHex4At [0x30, 0x30, lowerHexDigit (UInt8.ofNat n >>> 4),
            lowerHexDigit (UInt8.ofNat n &&& 0x0f)] = some n := by decide
    exact (hall n hn).imp_right fun hdigits => ⟨_, hdigits.1, parseHex4At_four.mp hdigits.2⟩

/-- **Both escapers are undone by the decoder**, for every text that is UTF-8. -/
theorem escaped_strings_decode {text : Bytes} (h : PlainText text) :
    ReadsAs (payloadJsonString (some text)) text ∧ ReadsAs (appendEscapedString text) text := by
  obtain ⟨cs, rfl, -⟩ := h
  have hchars : Chars ((utf8 cs).flatMap escapePayloadByte) cs := by
    induction cs with
    | nil => exact Chars.nil
    | cons c cs ih =>
      rw [utf8_cons, List.flatMap_append]
      exact Chars.cons (spells_escapePayload c) ih
  exact ⟨readsAs_of_chars hchars, readsAs_of_chars (chars_escape cs)⟩

/-- A text with a quote, a control character and a character of two bytes. -/
theorem escaped_strings_decode_member :
    ReadsAs (payloadJsonString (some (utf8 ['"', ',', '\x01', 'é'])))
        (utf8 ['"', ',', '\x01', 'é']) ∧
      ReadsAs (appendEscapedString (utf8 ['"', ',', '\x01', 'é']))
        (utf8 ['"', ',', '\x01', 'é']) :=
  escaped_strings_decode ⟨_, rfl, by simp⟩

end Dcc.Gateway
