/-
S3rm/Format.lean

The strings metadata and tag regexes are matched against
(`format_metadata` and `format_tags` in src/deleter/mod.rs).  They call
`urlencoding::encode` of another package, which is the argument `encode` here.
-/
import S3rm.Types

namespace S3rm

/-- `urlencoding::encode` as it is documented: every UTF-8 byte that is not an
ASCII letter, a digit or one of `-_.~` becomes `%XX`. -/
def urlEncode (s : String) : String :=
  String.join (s.toUTF8.toList.map fun byte =>
    let c := Char.ofNat byte.toNat
    if c.isAlphanum || c == '-' || c == '_' || c == '.' || c == '~' then c.toString
    else "%" ++ String.ofList [hexDigit (byte.toNat / 16), hexDigit (byte.toNat % 16)])
where
  /-- An upper-case hexadecimal digit. -/
  hexDigit (n : Nat) : Char := if n < 10 then Char.ofNat (48 + n) else Char.ofNat (55 + n)

/-- `format_metadata`: by key, comma-separated. -/
def formatMetadata (encode : String → String) (metadata : Metadata) : String :=
  let sorted := metadata.entries.insertionSort fun a b => a.1 ≤ b.1
  ",".intercalate (sorted.map fun (key, value) => key ++ "=" ++ encode value)

/-- `format_tags`: by key, tags of one key in the order given. -/
def formatTags (encode : String → String) (tags : List Tag) : String :=
  let sorted := tags.insertionSort fun a b => a.key ≤ b.key
  "&".intercalate (sorted.map fun tag => encode tag.key ++ "=" ++ encode tag.value)

example : formatTags urlEncode [⟨"b", "x y"⟩, ⟨"a", "é"⟩] = "a=%C3%A9&b=x%20y" := by
  decide +kernel

end S3rm
