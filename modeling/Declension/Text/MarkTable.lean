/-!
Letters written with combining marks: for each mark the letters that take it and, in the same
order, the single characters for letter and mark together.
-/
namespace Declension.Text

/-- One combining mark with the letters it joins: `bases` and `joined` run in step. -/
structure MarkRow where
  mark : Char
  bases : String
  joined : String

/-- Every letter and mark that have a character of their own. -/
def markRows : List MarkRow := [
  ⟨'\u0300',
    "AEIOUaeiouÜüNnЕИеиĒēŌōWwÂâĂăÊêÔôƠơƯưYyἀἁἈἉἐἑἘἙἠἡἨἩἰἱἸἹὀὁὈὉὐὑὙὠὡὨὩαεηιουωΑΕΗ᾿ϊΙ῾ϋΥ¨ΟΩ",
    "ÀÈÌÒÙàèìòùǛǜǸǹЀЍѐѝḔḕṐṑẀẁẦầẰằỀềỒồỜờỪừỲỳἂἃἊἋἒἓἚἛἢἣἪἫἲἳἺἻὂὃὊὋὒὓὛὢὣὪὫὰὲὴὶὸὺὼᾺῈῊ῍ῒῚ῝ῢῪ῭ῸῺ"⟩,
  ⟨'\u0301',
    "AEIOUYaeiouyCcLlNnRrSsZzÜüGgÅåÆæØø¨ΑΕΗΙΟΥΩϊαεηιϋουωϒГКгкÇçĒēÏïKkMmÕõŌōPpŨũWwÂâĂăÊêÔô" ++
    "ƠơƯưἀἁἈἉἐἑἘἙἠἡἨἩἰἱἸἹὀὁὈὉὐὑὙὠὡὨὩ᾿῾",
    "ÁÉÍÓÚÝáéíóúýĆćĹĺŃńŔŕŚśŹźǗǘǴǵǺǻǼǽǾǿ΅ΆΈΉΊΌΎΏΐάέήίΰόύώϓЃЌѓќḈḉḖḗḮḯḰḱḾḿṌṍṒṓṔṕṸṹẂẃẤấẮắẾếỐố" ++
    "ỚớỨứἄἅἌἍἔἕἜἝἤἥἬἭἴἵἼἽὄὅὌὍὔὕὝὤὥὬὭ῎῞"⟩,
  ⟨'\u0302',
    "AEIOUaeiouCcGgHhJjSsWwYyZzẠạẸẹỌọ",
    "ÂÊÎÔÛâêîôûĈĉĜĝĤĥĴĵŜŝŴŵŶŷẐẑẬậỆệỘộ"⟩,
  ⟨'\u0303',
    "ANOanoIiUuVvÂâĂăEeÊêÔôƠơƯưYy",
    "ÃÑÕãñõĨĩŨũṼṽẪẫẴẵẼẽỄễỖỗỠỡỮữỸỹ"⟩,
  ⟨'\u0304',
    "AaEeIiOoUuÜüÄäȦȧÆæǪǫÖöÕõȮȯYyИиУуGgḶḷṚṛαΑιΙυΥ",
    "ĀāĒēĪīŌōŪūǕǖǞǟǠǡǢǣǬǭȪȫȬȭȰȱȲȳӢӣӮӯḠḡḸḹṜṝᾱᾹῑῙῡῩ"⟩,
  ⟨'\u0306',
    "AaEeGgIiOoUuУИиуЖжАаЕеȨȩẠạαΑιΙυΥ",
    "ĂăĔĕĞğĬĭŎŏŬŭЎЙйўӁӂӐӑӖӗḜḝẶặᾰᾸῐῘῠῨ"⟩,
  ⟨'\u0307',
    "CcEeGgIZzAaOoBbDdFfHhMmNnPpRrSsŚśŠšṢṣTtWwXxYyſ",
    "ĊċĖėĠġİŻżȦȧȮȯḂḃḊḋḞḟḢḣṀṁṄṅṖṗṘṙṠṡṤṥṦṧṨṩṪṫẆẇẊẋẎẏẛ"⟩,
  ⟨'\u0308',
    "AEIOUaeiouyYΙΥιυϒЕІеіАаӘәЖжЗзИиОоӨөЭэУуЧчЫыHhÕõŪūWwXxt",
    "ÄËÏÖÜäëïöüÿŸΪΫϊϋϔЁЇёїӒӓӚӛӜӝӞӟӤӥӦӧӪӫӬӭӰӱӴӵӸӹḦḧṎṏṺṻẄẅẌẍẗ"⟩,
  ⟨'\u0309',
    "AaÂâĂăEeÊêIiOoÔôƠơUuƯưYy",
    "ẢảẨẩẲẳẺẻỂểỈỉỎỏỔổỞởỦủỬửỶỷ"⟩,
  ⟨'\u030a',
    "AaUuwy",
    "ÅåŮůẘẙ"⟩,
  ⟨'\u030b',
    "OoUuУу",
    "ŐőŰűӲӳ"⟩,
  ⟨'\u030c',
    "CcDdEeLlNnRrSsTtZzAaIiOoUuÜüGgKkƷʒjHh",
    "ČčĎďĚěĽľŇňŘřŠšŤťŽžǍǎǏǐǑǒǓǔǙǚǦǧǨǩǮǯǰȞȟ"⟩,
  ⟨'\u030f',
    "AaEeIiOoRrUuѴѵ",
    "ȀȁȄȅȈȉȌȍȐȑȔȕѶѷ"⟩,
  ⟨'\u0311',
    "AaEeIiOoRrUu",
    "ȂȃȆȇȊȋȎȏȒȓȖȗ"⟩,
  ⟨'\u0313',
    "αΑεΕηΗιΙοΟυωΩρ",
    "ἀἈἐἘἠἨἰἸὀὈὐὠὨῤ"⟩,
  ⟨'\u0314',
    "αΑεΕηΗιΙοΟυΥωΩρΡ",
    "ἁἉἑἙἡἩἱἹὁὉὑὙὡὩῥῬ"⟩,
  ⟨'\u031b',
    "OoUu",
    "ƠơƯư"⟩,
  ⟨'\u0323',
    "BbDdHhKkLlMmNnRrSsTtVvWwZzAaEeIiOoƠơUuƯưYy",
    "ḄḅḌḍḤḥḲḳḶḷṂṃṆṇṚṛṢṣṬṭṾṿẈẉẒẓẠạẸẹỊịỌọỢợỤụỰựỴỵ"⟩,
  ⟨'\u0324',
    "Uu",
    "Ṳṳ"⟩,
  ⟨'\u0325',
    "Aa",
    "Ḁḁ"⟩,
  ⟨'\u0326',
    "SsTt",
    "ȘșȚț"⟩,
  ⟨'\u0327',
    "CcGgKkLlNnRrSsTtEeDdHh",
    "ÇçĢģĶķĻļŅņŖŗŞşŢţȨȩḐḑḨḩ"⟩,
  ⟨'\u0328',
    "AaEeIiUuOo",
    "ĄąĘęĮįŲųǪǫ"⟩,
  ⟨'\u032d',
    "DdEeLlNnTtUu",
    "ḒḓḘḙḼḽṊṋṰṱṶṷ"⟩,
  ⟨'\u032e',
    "Hh",
    "Ḫḫ"⟩,
  ⟨'\u0330',
    "EeIiUu",
    "ḚḛḬḭṴṵ"⟩,
  ⟨'\u0331',
    "BbDdKkLlNnRrTtZzh",
    "ḆḇḎḏḴḵḺḻṈṉṞṟṮṯẔẕẖ"⟩,
  ⟨'\u0338',
    "←→↔⇐⇔⇒∃∈∋∣∥∼≃≅≈=≡≍<>≤≥≲≳≶≷≺≻⊂⊃⊆⊇⊢⊨⊩⊫≼≽⊑⊒⊲⊳⊴⊵",
    "↚↛↮⇍⇎⇏∄∉∌∤∦≁≄≇≉≠≢≭≮≯≰≱≴≵≸≹⊀⊁⊄⊅⊈⊉⊬⊭⊮⊯⋠⋡⋢⋣⋪⋫⋬⋭"⟩,
  ⟨'\u0342',
    "ἀἁἈἉἠἡἨἩἰἱἸἹὐὑὙὠὡὨὩα¨η᾿ιϊ῾υϋω",
    "ἆἇἎἏἦἧἮἯἶἷἾἿὖὗὟὦὧὮὯᾶ῁ῆ῏ῖῗ῟ῦῧῶ"⟩,
  ⟨'\u0345',
    "ἀἁἂἃἄἅἆἇἈἉἊἋἌἍἎἏἠἡἢἣἤἥἦἧἨἩἪἫἬἭἮἯὠὡὢὣὤὥὦὧὨὩὪὫὬὭὮὯὰαάᾶΑὴηήῆΗὼωώῶΩ",
    "ᾀᾁᾂᾃᾄᾅᾆᾇᾈᾉᾊᾋᾌᾍᾎᾏᾐᾑᾒᾓᾔᾕᾖᾗᾘᾙᾚᾛᾜᾝᾞᾟᾠᾡᾢᾣᾤᾥᾦᾧᾨᾩᾪᾫᾬᾭᾮᾯᾲᾳᾴᾷᾼῂῃῄῇῌῲῳῴῷῼ"⟩]

/-- Characters that stand for others and are never put together again. -/
def standIns : List (Char × List Char) := [
  ('\u0340', ['\u0300']),
  ('\u0341', ['\u0301']),
  ('\u0343', ['\u0313']),
  ('\u0344', ['\u0308', '\u0301']),
  ('\u0374', ['\u02b9']),
  ('\u037e', ['\u003b']),
  ('\u0387', ['\u00b7']),
  ('\u1f71', ['\u03ac']),
  ('\u1f73', ['\u03ad']),
  ('\u1f75', ['\u03ae']),
  ('\u1f77', ['\u03af']),
  ('\u1f79', ['\u03cc']),
  ('\u1f7b', ['\u03cd']),
  ('\u1f7d', ['\u03ce']),
  ('\u1fbb', ['\u0386']),
  ('\u1fbe', ['\u03b9']),
  ('\u1fc9', ['\u0388']),
  ('\u1fcb', ['\u0389']),
  ('\u1fd3', ['\u0390']),
  ('\u1fdb', ['\u038a']),
  ('\u1fe3', ['\u03b0']),
  ('\u1feb', ['\u038e']),
  ('\u1fee', ['\u0385']),
  ('\u1fef', ['\u0060']),
  ('\u1ff9', ['\u038c']),
  ('\u1ffb', ['\u038f']),
  ('\u1ffd', ['\u00b4']),
  ('\u2126', ['\u03a9']),
  ('\u212a', ['\u004b']),
  ('\u212b', ['\u00c5']),
  ('\u2adc', ['\u2add', '\u0338'])]

end Declension.Text
