/-
  The labels of Finder tags, their colours, and the colours that labels alone stand for.
-/
import WinCommander.Library.Unicode

namespace WinCommander.Utility

open Library

inductive Color where
  | none
  | gray
  | green
  | purple
  | blue
  | yellow
  | red
  | orange
deriving DecidableEq

namespace Color

def code : Color → Nat
  | none => 0
  | gray => 1
  | green => 2
  | purple => 3
  | blue => 4
  | yellow => 5
  | red => 6
  | orange => 7

def ofCode : Nat → Color
  | 1 => gray
  | 2 => green
  | 3 => purple
  | 4 => blue
  | 5 => yellow
  | 6 => red
  | 7 => orange
  | _ => none

theorem ofCode_code (color : Color) : ofCode color.code = color := by
  cases color <;> rfl

theorem code_lt (color : Color) : color.code < 8 := by
  cases color <;> decide

end Color

/-- A label in UTF-8, with a colour. -/
structure Tag where
  label : Bytes
  color : Color
deriving DecidableEq

/-- The colours, named in the languages that there are. -/
def localizedToColors : List (String × Nat) :=
  [("Abu-Abu", 1), ("Albastru", 4), ("Amarelo", 5), ("Amarillo", 5), ("Arancione", 7),
  ("Aucune couleur", 0), ("Azul", 4), ("Bez boje", 0), ("Bíbor", 3), ("Biru", 4), ("Blå", 4),
  ("Blau", 4), ("Blauw", 4), ("Blava", 4), ("Bleu", 4), ("Blu", 4), ("Blue", 4),
  ("Brak koloru", 0), ("Cam", 7), ("Cap color", 0), ("Cinza", 1), ("Cinzento", 1), ("Crvena", 6),
  ("Czerwony", 6), ("Ei väriä", 0), ("Fialová", 3), ("Galben", 5), ("Geel", 5), ("Geen kleur", 0),
  ("Gelb", 5), ("Giallo", 5), ("Grå", 1), ("Grau", 1), ("Gray", 1), ("Green", 2), ("Grey", 1),
  ("Gri", 1), ("Grigio", 1), ("Grijs", 1), ("Gris", 1), ("Grisa", 1), ("Groen", 2), ("Groga", 5),
  ("Grön", 2), ("Grøn", 2), ("Grønn", 2), ("Grün", 2), ("Gul", 5), ("Harmaa", 1), ("Hijau", 2),
  ("Ingen färg", 0), ("Ingen farge", 0), ("Ingen farve", 0), ("Jaune", 5), ("Jingga", 7),
  ("Kék", 4), ("Kelabu", 1), ("Keltainen", 5), ("Không có màu", 0), ("Kuning", 5), ("Kırmızı", 6),
  ("Lam", 4), ("Laranja", 7), ("Lila", 3), ("Lilla", 3), ("Ljubičasta", 3), ("Lục", 2),
  ("Mavi", 4), ("Merah", 6), ("Modrá", 4), ("Mor", 3), ("Morada", 3), ("Morado", 3), ("Mov", 3),
  ("Narancs", 7), ("Naranja", 7), ("Narančasta", 7), ("Nenhuma Cor", 0), ("Nenhuma cor", 0),
  ("Nessun colore", 0), ("Nicio culoare", 0), ("Niebieski", 4), ("Nincs szín", 0), ("No Color", 0),
  ("No Colour", 0), ("Ohne Farbe", 0), ("Orange", 7), ("Oranje", 7), ("Oransje", 7),
  ("Oranssi", 7), ("Oranye", 7), ("Oranžová", 7), ("Paars", 3), ("Piros", 6), ("Plava", 4),
  ("Pomarańczowy", 7), ("Portocaliu", 7), ("Punainen", 6), ("Purple", 3), ("Purpurowy", 3),
  ("Red", 6), ("Renk Yok", 0), ("Röd", 6), ("Rød", 6), ("Rojo", 6), ("Rood", 6), ("Rosso", 6),
  ("Rot", 6), ("Rouge", 6), ("Roxo", 3), ("Roșu", 6), ("Sárga", 5), ("Sarı", 5), ("Sin color", 0),
  ("Sininen", 4), ("Siva", 1), ("Sivá", 1), ("Szary", 1), ("Szürke", 1), ("Taronja", 7),
  ("Tía", 3), ("Tiada Warna", 0), ("Tidak Ada Warna", 0), ("Turuncu", 7), ("Ungu", 3), ("Vàng", 5),
  ("Verda", 2), ("Verde", 2), ("Vermelho", 6), ("Vermella", 6), ("Vert", 2), ("Vihreä", 2),
  ("Viola", 3), ("Violet", 3), ("Violetti", 3), ("Xám", 1), ("Yellow", 5), ("Yeşil", 2),
  ("Zelena", 2), ("Zelená", 2), ("Zielony", 2), ("Zöld", 2), ("Žádná barva", 0), ("Šedá", 1),
  ("Červená", 6), ("Žiadna farba", 0), ("Žltá", 5), ("Žlutá", 5), ("Żółty", 5), ("Žuta", 5),
  ("색상 없음", 0), ("لا يوجد لون", 0), ("灰色", 1), ("회색", 1), ("綠色", 2), ("绿色", 2), ("紫色", 3),
  ("蓝色", 4), ("藍色", 4), ("黃色", 5), ("黄色", 5), ("Đỏ", 6), ("紅色", 6), ("红色", 6), ("橙色", 7),
  ("कोई रंग नहीं", 0), ("ללא צבע", 0), ("Без цвета", 0), ("无颜色", 0), ("グレイ", 1), ("हरा", 2),
  ("초록색", 2), ("Μοβ", 3), ("보라색", 3), ("ブルー", 4), ("파란색", 4), ("노란색", 5), ("लाल", 6), ("レッド", 6),
  ("빨간색", 6), ("주황색", 7), ("沒有顏色", 0), ("Γκρι", 1), ("אפור", 1), ("धूसर", 1), ("ירוק", 2),
  ("أخضر", 2), ("グリーン", 2), ("סגול", 3), ("パープル", 3), ("Μπλε", 4), ("כחול", 4), ("أزرق", 4),
  ("नीला", 4), ("צהוב", 5), ("أصفر", 5), ("पीला", 5), ("イエロー", 5), ("אדום", 6), ("أحمر", 6),
  ("כתום", 7), ("オレンジ", 7), ("Немає кольору", 0), ("カラーなし", 0), ("Серый", 1), ("Сірий", 1),
  ("رمادي", 1), ("สีเทา", 1), ("Синий", 4), ("Синій", 4), ("สีแดง", 6), ("สีส้ม", 7),
  ("Κανένα χρώμα", 0), ("जामुनी", 3), ("สีม่วง", 3), ("Желтый", 5), ("Жовтий", 5), ("नारंगी", 7),
  ("ไม่มีสี", 0), ("Πράσινο", 2), ("Зелений", 2), ("Зеленый", 2), ("สีเขียว", 2), ("Лиловый", 3),
  ("أرجواني", 3), ("Κίτρινο", 5), ("Κόκκινο", 6), ("Красный", 6), ("برتقالي", 7), ("Бузковий", 3),
  ("สีเหลือง", 5), ("Червоний", 6), ("สีน้ำเงิน", 4), ("Πορτοκαλί", 7), ("Оранжевий", 7),
  ("Оранжевый", 7)]

/-- The bytes of a text. -/
def utf8OfString (text : String) : Bytes := text.toList.flatMap fun c => utf8 c.toNat

/-- The colour that a label stands for by its name. -/
def colorOfName (label : Bytes) : Option Color :=
  (localizedToColors.find? fun entry => utf8OfString entry.1 == label).map (Color.ofCode ·.2)

end WinCommander.Utility
