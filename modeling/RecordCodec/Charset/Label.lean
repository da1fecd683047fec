import RecordCodec.Charset.Basic

/-!
The labels under which a character set is known. A label is looked up without blanks around it and
in any letter case.
-/
namespace RecordCodec.Charset

def labels : List (String × Charset) := [
  ("437", .page .cp437),
  ("850", .page .cp850),
  ("866", .web .ibm866),
  ("ansi_x3.4-1968", .web .windows1252),
  ("arabic", .web .iso8859_6),
  ("ascii", .web .windows1252),
  ("asmo-708", .web .iso8859_6),
  ("big5", .web .big5),
  ("big5-hkscs", .web .big5),
  ("chinese", .web .gbk),
  ("cn-big5", .web .big5),
  ("cp037", .page .cp037),
  ("cp1047", .page .cp1047),
  ("cp1140", .page .cp1140),
  ("cp1250", .web .windows1250),
  ("cp1251", .web .windows1251),
  ("cp1252", .web .windows1252),
  ("cp1253", .web .windows1253),
  ("cp1254", .web .windows1254),
  ("cp1255", .web .windows1255),
  ("cp1256", .web .windows1256),
  ("cp1257", .web .windows1257),
  ("cp1258", .web .windows1258),
  ("cp437", .page .cp437),
  ("cp819", .web .windows1252),
  ("cp850", .page .cp850),
  ("cp852", .page .cp852),
  ("cp855", .page .cp855),
  ("cp858", .page .cp858),
  ("cp860", .page .cp860),
  ("cp866", .web .ibm866),
  ("csbig5", .web .big5),
  ("cseuckr", .web .eucKr),
  ("cseucpkdfmtjapanese", .web .eucJp),
  ("csgb2312", .web .gbk),
  ("csibm866", .web .ibm866),
  ("csiso2022jp", .web .iso2022Jp),
  ("csiso2022kr", .web .replacement),
  ("csiso58gb231280", .web .gbk),
  ("csiso88596e", .web .iso8859_6),
  ("csiso88596i", .web .iso8859_6),
  ("csiso88598e", .web .iso8859_8),
  ("csiso88598i", .web .iso8859_8i),
  ("csisolatin1", .web .windows1252),
  ("csisolatin2", .web .iso8859_2),
  ("csisolatin3", .web .iso8859_3),
  ("csisolatin4", .web .iso8859_4),
  ("csisolatin5", .web .windows1254),
  ("csisolatin6", .web .iso8859_10),
  ("csisolatin9", .web .iso8859_15),
  ("csisolatinarabic", .web .iso8859_6),
  ("csisolatincyrillic", .web .iso8859_5),
  ("csisolatingreek", .web .iso8859_7),
  ("csisolatinhebrew", .web .iso8859_8),
  ("cskoi8r", .web .koi8r),
  ("csksc56011987", .web .eucKr),
  ("csmacintosh", .web .macintosh),
  ("csshiftjis", .web .shiftJis),
  ("cyrillic", .web .iso8859_5),
  ("dos-874", .web .windows874),
  ("ebcdic-cp-us", .page .cp037),
  ("ecma-114", .web .iso8859_6),
  ("ecma-118", .web .iso8859_7),
  ("elot_928", .web .iso8859_7),
  ("euc-jp", .web .eucJp),
  ("euc-kr", .web .eucKr),
  ("gb18030", .web .gb18030),
  ("gb2312", .web .gbk),
  ("gb_2312", .web .gbk),
  ("gb_2312-80", .web .gbk),
  ("gbk", .web .gbk),
  ("greek", .web .iso8859_7),
  ("greek8", .web .iso8859_7),
  ("hebrew", .web .iso8859_8),
  ("hz-gb-2312", .web .replacement),
  ("ibm-037", .page .cp037),
  ("ibm-1047", .page .cp1047),
  ("ibm-1140", .page .cp1140),
  ("ibm-852", .page .cp852),
  ("ibm037", .page .cp037),
  ("ibm1047", .page .cp1047),
  ("ibm1140", .page .cp1140),
  ("ibm437", .page .cp437),
  ("ibm819", .web .windows1252),
  ("ibm850", .page .cp850),
  ("ibm852", .page .cp852),
  ("ibm855", .page .cp855),
  ("ibm858", .page .cp858),
  ("ibm860", .page .cp860),
  ("ibm866", .web .ibm866),
  ("iso-2022-cn", .web .replacement),
  ("iso-2022-cn-ext", .web .replacement),
  ("iso-2022-jp", .web .iso2022Jp),
  ("iso-2022-kr", .web .replacement),
  ("iso-8859-1", .web .windows1252),
  ("iso-8859-10", .web .iso8859_10),
  ("iso-8859-11", .web .windows874),
  ("iso-8859-13", .web .iso8859_13),
  ("iso-8859-14", .web .iso8859_14),
  ("iso-8859-15", .web .iso8859_15),
  ("iso-8859-16", .web .iso8859_16),
  ("iso-8859-2", .web .iso8859_2),
  ("iso-8859-3", .web .iso8859_3),
  ("iso-8859-4", .web .iso8859_4),
  ("iso-8859-5", .web .iso8859_5),
  ("iso-8859-6", .web .iso8859_6),
  ("iso-8859-6-e", .web .iso8859_6),
  ("iso-8859-6-i", .web .iso8859_6),
  ("iso-8859-7", .web .iso8859_7),
  ("iso-8859-8", .web .iso8859_8),
  ("iso-8859-8-e", .web .iso8859_8),
  ("iso-8859-8-i", .web .iso8859_8i),
  ("iso-8859-9", .web .windows1254),
  ("iso-ir-100", .web .windows1252),
  ("iso-ir-101", .web .iso8859_2),
  ("iso-ir-109", .web .iso8859_3),
  ("iso-ir-110", .web .iso8859_4),
  ("iso-ir-126", .web .iso8859_7),
  ("iso-ir-127", .web .iso8859_6),
  ("iso-ir-138", .web .iso8859_8),
  ("iso-ir-144", .web .iso8859_5),
  ("iso-ir-148", .web .windows1254),
  ("iso-ir-149", .web .eucKr),
  ("iso-ir-157", .web .iso8859_10),
  ("iso-ir-58", .web .gbk),
  ("iso8859-1", .web .windows1252),
  ("iso8859-10", .web .iso8859_10),
  ("iso8859-11", .web .windows874),
  ("iso8859-13", .web .iso8859_13),
  ("iso8859-14", .web .iso8859_14),
  ("iso8859-15", .web .iso8859_15),
  ("iso8859-2", .web .iso8859_2),
  ("iso8859-3", .web .iso8859_3),
  ("iso8859-4", .web .iso8859_4),
  ("iso8859-5", .web .iso8859_5),
  ("iso8859-6", .web .iso8859_6),
  ("iso8859-7", .web .iso8859_7),
  ("iso8859-8", .web .iso8859_8),
  ("iso8859-9", .web .windows1254),
  ("iso88591", .web .windows1252),
  ("iso885910", .web .iso8859_10),
  ("iso885911", .web .windows874),
  ("iso885913", .web .iso8859_13),
  ("iso885914", .web .iso8859_14),
  ("iso885915", .web .iso8859_15),
  ("iso88592", .web .iso8859_2),
  ("iso88593", .web .iso8859_3),
  ("iso88594", .web .iso8859_4),
  ("iso88595", .web .iso8859_5),
  ("iso88596", .web .iso8859_6),
  ("iso88597", .web .iso8859_7),
  ("iso88598", .web .iso8859_8),
  ("iso88599", .web .windows1254),
  ("iso_8859-1", .web .windows1252),
  ("iso_8859-15", .web .iso8859_15),
  ("iso_8859-1:1987", .web .windows1252),
  ("iso_8859-2", .web .iso8859_2),
  ("iso_8859-2:1987", .web .iso8859_2),
  ("iso_8859-3", .web .iso8859_3),
  ("iso_8859-3:1988", .web .iso8859_3),
  ("iso_8859-4", .web .iso8859_4),
  ("iso_8859-4:1988", .web .iso8859_4),
  ("iso_8859-5", .web .iso8859_5),
  ("iso_8859-5:1988", .web .iso8859_5),
  ("iso_8859-6", .web .iso8859_6),
  ("iso_8859-6:1987", .web .iso8859_6),
  ("iso_8859-7", .web .iso8859_7),
  ("iso_8859-7:1987", .web .iso8859_7),
  ("iso_8859-8", .web .iso8859_8),
  ("iso_8859-8:1988", .web .iso8859_8),
  ("iso_8859-9", .web .windows1254),
  ("iso_8859-9:1989", .web .windows1254),
  ("koi", .web .koi8r),
  ("koi8", .web .koi8r),
  ("koi8-r", .web .koi8r),
  ("koi8-ru", .web .koi8u),
  ("koi8-u", .web .koi8u),
  ("koi8_r", .web .koi8r),
  ("korean", .web .eucKr),
  ("ks_c_5601-1987", .web .eucKr),
  ("ks_c_5601-1989", .web .eucKr),
  ("ksc5601", .web .eucKr),
  ("ksc_5601", .web .eucKr),
  ("l1", .web .windows1252),
  ("l2", .web .iso8859_2),
  ("l3", .web .iso8859_3),
  ("l4", .web .iso8859_4),
  ("l5", .web .windows1254),
  ("l6", .web .iso8859_10),
  ("l9", .web .iso8859_15),
  ("latin1", .web .windows1252),
  ("latin2", .web .iso8859_2),
  ("latin3", .web .iso8859_3),
  ("latin4", .web .iso8859_4),
  ("latin5", .web .windows1254),
  ("latin6", .web .iso8859_10),
  ("logical", .web .iso8859_8i),
  ("mac", .web .macintosh),
  ("macintosh", .web .macintosh),
  ("ms932", .web .shiftJis),
  ("ms_kanji", .web .shiftJis),
  ("replacement", .web .replacement),
  ("shift-jis", .web .shiftJis),
  ("shift_jis", .web .shiftJis),
  ("sjis", .web .shiftJis),
  ("sun_eu_greek", .web .iso8859_7),
  ("tis-620", .web .windows874),
  ("unicode-1-1-utf-8", .utf8),
  ("us-ascii", .web .windows1252),
  ("utf-16", .utf16 .little),
  ("utf-16be", .utf16 .big),
  ("utf-16le", .utf16 .little),
  ("utf-8", .utf8),
  ("utf8", .utf8),
  ("visual", .web .iso8859_8),
  ("windows-1250", .web .windows1250),
  ("windows-1251", .web .windows1251),
  ("windows-1252", .web .windows1252),
  ("windows-1253", .web .windows1253),
  ("windows-1254", .web .windows1254),
  ("windows-1255", .web .windows1255),
  ("windows-1256", .web .windows1256),
  ("windows-1257", .web .windows1257),
  ("windows-1258", .web .windows1258),
  ("windows-31j", .web .shiftJis),
  ("windows-874", .web .windows874),
  ("windows-949", .web .eucKr),
  ("x-cp1250", .web .windows1250),
  ("x-cp1251", .web .windows1251),
  ("x-cp1252", .web .windows1252),
  ("x-cp1253", .web .windows1253),
  ("x-cp1254", .web .windows1254),
  ("x-cp1255", .web .windows1255),
  ("x-cp1256", .web .windows1256),
  ("x-cp1257", .web .windows1257),
  ("x-cp1258", .web .windows1258),
  ("x-euc-jp", .web .eucJp),
  ("x-gbk", .web .gbk),
  ("x-mac-cyrillic", .web .macCyrillic),
  ("x-mac-roman", .web .macintosh),
  ("x-mac-ukrainian", .web .macCyrillic),
  ("x-sjis", .web .shiftJis),
  ("x-user-defined", .web .userDefined),
  ("x-x-big5", .web .big5)]

def ofLabel? (label : String) : Option Charset :=
  labels.lookup (String.ofList ((Text.trim label.toList).map Text.lowerAscii))

def ofLabel (label : String) : Except Charset.Fault Charset :=
  match ofLabel? label with
  | some charset => .ok charset
  | none => .error (.unknownLabel label)

end RecordCodec.Charset
